import InletRegistry.Proofs.Node.Location

/-!
# What a follower sends on

A follower asks the coordinator once for every request that it hands on, and it asks with the method,
the target and the header fields with which the request came; only the identifier under which it knows
the request takes the place of the one that the request brought. The body goes along with an update
alone: a client that sends one with any other request finds that the coordinator never gets it.
-/

namespace InletRegistry

open InletRegistry.Http InletRegistry.Routing InletRegistry.Cluster InletRegistry.Registry

variable {σ : Type}

/-- A request is sent on as it came, but for its identifier. -/
structure Http.Request.Verbatim (r sent : Request) : Prop where
  method : sent.method = r.method
  target : sent.target = r.target
  headers : sent.headers.remove requestIdHeader = r.headers.remove requestIdHeader
  body : sent.body = r.body

namespace Node

variable {f : Node} {r : Request} {now : Nat} {url caller : String} {segment : List Char} {task : Task}

/-- A request for an inlet comes to the task that it says. -/
theorem assess_eq_ok (hcaller : f.callerOf now r = .ok caller)
    (hroute : Route.ofPath? r.target.path = some (.inlet segment))
    (hserves : (Route.inlet segment).serves r.method = true)
    (hcomes : assessInlet f.service.kind caller segment r = .ok task) : f.assess now r = .ok task := by
  rw [assess_of_inlet hcaller hroute hserves, hcomes]

/-- What is sent on has the body of an update and no other. -/
theorem outgoing_verbatim (value : List UInt8) :
    Request.Verbatim { r with body := if r.method = "PUT" then r.body else [] }
      (outgoing (r.identified value)) := by
  have hheaders : (r.identified value).headers.remove requestIdHeader =
      r.headers.remove requestIdHeader := Headers.remove_set
  by_cases hput : r.method = "PUT"
  · have hsent : outgoing (r.identified value) = r.identified value := if_pos hput
    rw [hsent, if_pos hput]
    exact ⟨rfl, rfl, hheaders, rfl⟩
  · have hsent : outgoing (r.identified value) = { r.identified value with body := [] } := if_neg hput
    rw [hsent, if_neg hput]
    exact ⟨rfl, rfl, hheaders, rfl⟩

/-- The network is asked once for a request that a follower hands on. -/
theorem asked_of_follower (htask : f.assess now r = .ok task) (hfollower : f.membership.role = .follower)
    (hurl : f.membership.knownUrl = some url) (hmark : isForwarded r = false) (meanwhile : Meanwhile)
    (transport : Transport σ) (s : σ) :
    (f.attend meanwhile (noting transport) now r ([], s)).2.2.1 =
      [(url, outgoing (r.identified (f.requestIdOf r)))] := by
  rw [attend_of_follower htask hfollower hurl hmark]
  rfl

/-- **A follower sends on what came, without the body unless it is an update.** A follower knows where
its coordinator is. A request for an inlet comes to it that no follower has sent on yet, from a caller
that can be told, by a method that inlets have, and it says what it has to. Then the network is asked
exactly once, for the address of the coordinator, with the method, the target and the header fields of
the request; so the request is sent on as it came exactly if it is an update or has no body. -/
theorem sent_on_without_body (hfollower : f.membership.role = .follower)
    (hurl : f.membership.knownUrl = some url) (hcaller : f.callerOf now r = .ok caller)
    (hroute : Route.ofPath? r.target.path = some (.inlet segment))
    (hserves : (Route.inlet segment).serves r.method = true)
    (hcomes : assessInlet f.service.kind caller segment r = .ok task) (hmark : isForwarded r = false)
    (meanwhile : Meanwhile) (transport : Transport σ) (s : σ) :
    ∃ sent, (f.attend meanwhile (noting transport) now r ([], s)).2.2.1 = [(url, sent)] ∧
      Request.Verbatim { r with body := if r.method = "PUT" then r.body else [] } sent ∧
      (r.Verbatim sent ↔ r.method = "PUT" ∨ r.body = []) := by
  have htask := assess_eq_ok hcaller hroute hserves hcomes
  have hsent := outgoing_verbatim (r := r) (f.requestIdOf r)
  refine ⟨outgoing (r.identified (f.requestIdOf r)),
    asked_of_follower htask hfollower hurl hmark meanwhile transport s, hsent, fun hverbatim => ?_,
    fun hbody => ?_⟩
  · by_cases hput : r.method = "PUT"
    · exact Or.inl hput
    · exact Or.inr (hverbatim.body.symm.trans (hsent.body.trans (if_neg hput)))
  · refine ⟨hsent.method, hsent.target, hsent.headers, hsent.body.trans ?_⟩
    by_cases hput : r.method = "PUT"
    · exact if_pos hput
    · exact (if_neg hput).trans (hbody.resolve_left hput).symm

/-- A request to remove an inlet, with a reason in its body. -/
def reasoned : Request :=
  ⟨"DELETE", ⟨"/input-ports/p%31", some "version=0&clientId=c"⟩,
    [("x-request-id", headerValue "1"), ("accept", headerValue "text/plain"),
      ("accept", headerValue "*/*")], headerValue "out of order"⟩

/-- The coordinator is told to remove the inlet, but not why. -/
theorem sent_on_without_body_reasoned :
    ∃ sent, ((member .follower).attend .idle (noting (isolated Unit)) 0 reasoned ([], ())).2.2.1 =
        [("http://coordinator", sent)] ∧
      Request.Verbatim { reasoned with body := [] } sent ∧ ¬ reasoned.Verbatim sent := by
  have hcaller : (member .follower).callerOf 0 reasoned = .ok "anonymous" := by decide
  have hroute : Route.ofPath? reasoned.target.path = some (.inlet "p%31".toList) := by decide
  have hserves : (Route.inlet "p%31".toList).serves reasoned.method = true := by decide
  have hcomes : assessInlet (member .follower).service.kind "anonymous" "p%31".toList reasoned =
      .ok (.order ⟨"anonymous", ⟨some 0, "c", "p1"⟩, .delete⟩) := by decide +kernel
  have hmark : isForwarded reasoned = false := by decide
  have hbody : ¬ (reasoned.method = "PUT" ∨ reasoned.body = []) := by decide
  obtain ⟨sent, hasked, hsent, hiff⟩ := sent_on_without_body (f := member .follower) rfl rfl hcaller
    hroute hserves hcomes hmark .idle (isolated Unit) ()
  exact ⟨sent, hasked, hsent, fun hverbatim => hbody (hiff.mp hverbatim)⟩

/-- A request to see an inlet, with a body that nobody asked for. -/
def chatty : Request := ⟨"GET", ⟨"/input-ports/p1", none⟩, [], headerValue "hello"⟩

/-- It is not so that a follower sends every request on as it came. -/
theorem not_sent_on_verbatim :
    ¬ ∀ (f : Node) (r : Request) (now : Nat) (url caller : String) (segment : List Char) (task : Task)
      (meanwhile : Meanwhile), f.membership.role = .follower → f.membership.knownUrl = some url →
      f.callerOf now r = .ok caller → Route.ofPath? r.target.path = some (.inlet segment) →
      r.method ∈ ["GET", "PUT", "DELETE"] →
      assessInlet f.service.kind caller segment r = .ok task → isForwarded r = false →
      ∃ sent, (f.attend meanwhile (noting (isolated Unit)) now r ([], ())).2.2.1 = [(url, sent)] ∧
        r.Verbatim sent := by
  intro h
  have hcaller : (member .follower).callerOf 0 chatty = .ok "anonymous" := by decide
  have hroute : Route.ofPath? chatty.target.path = some (.inlet "p1".toList) := by decide
  have hmethod : chatty.method ∈ ["GET", "PUT", "DELETE"] := by decide
  have hcomes : assessInlet (member .follower).service.kind "anonymous" "p1".toList chatty =
      .ok (.view "anonymous" "p1") := by decide +kernel
  have hmark : isForwarded chatty = false := by decide
  obtain ⟨sent, hasked, hverbatim⟩ := h (member .follower) chatty 0 _ _ _ _ .idle rfl rfl hcaller hroute
    hmethod hcomes hmark
  rw [asked_of_follower (assess_eq_ok hcaller hroute (by decide) hcomes) rfl rfl hmark,
    List.cons.injEq, Prod.mk.injEq] at hasked
  obtain ⟨⟨-, rfl⟩, -⟩ := hasked
  exact absurd (hverbatim.body.symm.trans (outgoing_verbatim _).body) (by decide)

end Node

end InletRegistry
