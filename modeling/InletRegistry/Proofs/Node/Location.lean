import InletRegistry.Proofs.Node.Assess
import InletRegistry.Routing.Wire

/-!
# It does not matter which node is asked

A client may ask a follower or the coordinator: it gets the same status and the same body, and the
coordinator is left the same. The follower judges a request before it hands it on, and the coordinator
judges it again as it comes off the hop; both judge alike, because a hop takes nothing away that the
judgement hangs on. So either both turn the request down in the same words, or the follower hands on
what the coordinator would have carried out anyway.

A request may have to wait at the coordinator for a lock, and others may act meanwhile. `attend` leaves
open what they do; `serve` is the case in which they do nothing.
-/

namespace InletRegistry

open InletRegistry.Http InletRegistry.Routing InletRegistry.Cluster InletRegistry.Registry

variable {σ : Type}

/-- What goes on at a node while a request waits there under a ticket, up to the outcome. -/
abbrev Meanwhile := Nat → Node → Outcome × Node

namespace Meanwhile

/-- Nothing goes on, and nothing comes of the wait. -/
def idle : Meanwhile := fun _ n => (.error (.internal "no such request"), n)

/-- Whatever goes on, the node has the name that it had. -/
def KeepsName (meanwhile : Meanwhile) : Prop := ∀ ticket n, (meanwhile ticket n).2.nodeId = n.nodeId

theorem keepsName_idle : idle.KeepsName := fun _ _ => rfl

end Meanwhile

namespace Visit

variable {v w : Visit} {r r' : Response}

@[simp] theorem conclude_status (v : Visit) (r : Response) : (v.conclude r).status = r.status := by
  unfold conclude
  cases v.allowed <;> (simp only [Response.withHeader]; split <;> split <;> rfl)

theorem conclude_body (v : Visit) (r : Response) :
    (v.conclude r).body = if v.method = "HEAD" then [] else r.body := by
  unfold conclude
  cases v.allowed <;> (simp only [Response.withHeader]; split <;> split <;> rfl)

end Visit

namespace Node

variable {f c : Node} {r : Request} {now : Nat} {url : String} {segment : List Char}

/-- Sees a request through to its response, whatever goes on while it waits. -/
def attend (meanwhile : Meanwhile) (transport : Transport σ) (now : Nat) (r : Request) (n : Node)
    (s : σ) : Response × Node × σ :=
  match n.receive transport now r s with
  | (_, .answered response, n, s) => (response, n, s)
  | (visit, .waiting ticket, n, s) =>
    let (outcome, n) := meanwhile ticket n
    (visit.conclude (n.respond outcome), n, s)

/-- Sees a task through to the response to its outcome. -/
def carryThrough (meanwhile : Meanwhile) (now : Nat) (task : Task) (n : Node) : Response × Node :=
  match n.start now task with
  | (.ok outcome, n) => (n.respond outcome, n)
  | (.error ticket, n) =>
    let (outcome, n) := meanwhile ticket n
    (n.respond outcome, n)

/-- To serve a request is to see it through while nobody else acts. -/
theorem serve_eq_attend (transport : Transport σ) (now : Nat) (r : Request) (n : Node) (s : σ) :
    n.serve transport now r s =
      n.attend (fun ticket n =>
        let (outcome, n) := n.proceed (·.expire ticket)
        (outcome.getD (.error (.internal "no such request")), n)) transport now r s := by
  unfold serve attend
  rcases n.receive transport now r s with ⟨visit, ⟨response⟩ | ⟨ticket⟩, n, s⟩ <;> rfl

/-- A network on which a node is reached at an address, as its followers reach it. -/
def link (address : String) (elsewhere : Transport (Node × σ)) (meanwhile : Meanwhile)
    (transport : Transport σ) (now : Nat) : Transport (Node × σ) := fun url r (c, s) =>
  if url = address then
    let (response, c, s) := c.attend meanwhile transport now (onward r) s
    (.ok response, c, s)
  else elsewhere url r (c, s)

/-! ## Two nodes judge alike -/

/-- Nodes that tell callers apart in the same way, and serve the same kind of resource, make the same
task of a request for an inlet, or turn it down with the same status and the same body. -/
theorem assess_alike (now : Nat) (hauth : f.auth = c.auth) (hkind : f.service.kind = c.service.kind)
    (hroute : Route.ofPath? r.target.path = some (.inlet segment)) :
    (∃ task, f.assess now r = .ok task ∧ c.assess now r = .ok task) ∨
      ∃ a b : Response, f.assess now r = .error a ∧ c.assess now r = .error b ∧
        a.status = b.status ∧ a.body = b.body := by
  have hcaller : f.callerOf now r = c.callerOf now r := by
    rw [callerOf, hauth]
    rfl
  unfold assess
  rw [hcaller, hroute, hkind]
  cases c.callerOf now r with
  | error fault => exact Or.inr ⟨_, _, rfl, rfl, rfl, rfl⟩
  | ok caller =>
    simp only
    by_cases hserves : (!(Route.inlet segment).serves r.method) = true
    · simp only [hserves, ↓reduceIte]
      exact Or.inr ⟨_, _, rfl, rfl, rfl, rfl⟩
    · simp only [hserves, Bool.false_eq_true, ↓reduceIte]
      cases assessInlet c.service.kind caller segment r with
      | ok task => exact Or.inl ⟨task, rfl, rfl⟩
      | error fault =>
        refine Or.inr ⟨_, _, rfl, rfl, ?_⟩
        cases fault with
        | rejected e => exact ⟨rfl, rfl⟩
        | failed failure => simp only [faultResponse, refuse, sign_status, sign_body, and_self]

/-! ## A request seen through -/

/-- A request that comes to no task is answered by the node itself. -/
theorem attend_of_error {answer : Response} (h : c.assess now r = .error answer)
    (meanwhile : Meanwhile) (transport : Transport σ) (s : σ) :
    c.attend meanwhile transport now r s = ((c.visitOf r).conclude answer, c.skipId, s) := by
  unfold attend
  rw [receive_eq, h]

/-- The node that carries a task out gives the response to its outcome. -/
theorem attend_of_local {task : Task} (h : c.assess now r = .ok task)
    (hlocal : c.membership.role ≠ .follower) (meanwhile : Meanwhile) (transport : Transport σ)
    (s : σ) :
    c.attend meanwhile transport now r s =
      ((c.visitOf r).conclude (c.skipId.carryThrough meanwhile now task).1,
        (c.skipId.carryThrough meanwhile now task).2, s) := by
  have hforward : c.skipId.membership.mustForward = false :=
    Bool.eq_false_iff.mpr fun htrue => hlocal (Membership.mustForward_iff.mp htrue)
  unfold attend carryThrough
  rw [receive_eq, h]
  simp only [undertake, hforward, Bool.false_eq_true, ↓reduceIte]
  rcases c.skipId.start now task with ⟨⟨ticket⟩ | ⟨outcome⟩, c'⟩ <;> rfl

/-- A follower hands a request that comes to a task on. -/
theorem attend_of_forward {task : Task} (h : f.assess now r = .ok task)
    (hfollower : f.membership.role = .follower) (meanwhile : Meanwhile) (transport : Transport σ)
    (s : σ) :
    f.attend meanwhile transport now r s =
      let sent := forward transport f.membership (outgoing (r.identified (f.requestIdOf r))) s
      ((f.visitOf r).conclude (f.skipId.relayed sent.1), f.skipId, sent.2) := by
  have hforward : f.skipId.membership.mustForward = true := Membership.mustForward_iff.mpr hfollower
  unfold attend
  rw [receive_eq, h]
  simp only [undertake, hforward, ↓reduceIte]
  rfl

/-- A follower relays what the coordinator says to a request that comes to a task. -/
theorem attend_of_follower {task : Task} (h : f.assess now r = .ok task)
    (hfollower : f.membership.role = .follower) (hurl : f.membership.knownUrl = some url)
    (hmark : isForwarded r = false) (meanwhile : Meanwhile) (transport : Transport σ) (s : σ) :
    f.attend meanwhile transport now r s =
      let sent := transport url (outgoing (r.identified (f.requestIdOf r))) s
      ((f.visitOf r).conclude (f.skipId.relayed sent.1), f.skipId, sent.2) := by
  have hunmarked : isForwarded (outgoing (r.identified (f.requestIdOf r))) = false := by
    rw [isForwarded_outgoing_identified, hmark]
  have hdestination : destination f.membership (outgoing (r.identified (f.requestIdOf r))) =
      .ok url := by
    have hknown : f.membership.coordinatorUrl = some url := by
      simp only [Membership.coordinatorUrl, hfollower]
      exact hurl
    rw [destination, hunmarked, hknown]
    rfl
  rw [attend_of_forward h hfollower, forward, hdestination]

/-- What a node has: its inlets, its locks and its audit trail. -/
def holdings (n : Node) : Store × LockTable × List Audit.Entry :=
  (n.service.ledger.store, n.service.locks, n.service.ledger.trail)

/-- **It does not matter which node is asked.** A request for an inlet that no follower has sent on yet
is put to a follower whose coordinator is reached at the address that it knows, and not a follower
itself; both nodes tell callers apart in the same way. Then, whatever state the coordinator is in and
whatever goes on there while the request waits, the response has the status and the body of the one
that the coordinator gives when it is asked directly, and the coordinator has the same inlets, locks
and audit trail afterwards. Those of the follower are as they were. -/
theorem follower_answers_as_coordinator (hfollower : f.membership.role = .follower)
    (hurl : f.membership.knownUrl = some url) (hlocal : c.membership.role ≠ .follower)
    (hauth : f.auth = c.auth) (hkind : f.service.kind = c.service.kind)
    (hroute : Route.ofPath? r.target.path = some (.inlet segment)) (hmark : isForwarded r = false)
    (now : Nat) (meanwhile idle : Meanwhile) (transport : Transport σ)
    (elsewhere : Transport (Node × σ)) (s : σ) :
    let direct := c.attend meanwhile transport now r s
    let viaFollower := f.attend idle (link url elsewhere meanwhile transport now) now r (c, s)
    viaFollower.1.status = direct.1.status ∧ viaFollower.1.body = direct.1.body ∧
      viaFollower.2.2.1.holdings = direct.2.1.holdings ∧ viaFollower.2.1.holdings = f.holdings := by
  rcases assess_alike now hauth hkind hroute with
    ⟨task, hf, hc⟩ | ⟨a, b, hf, hc, hstatus, hbody⟩
  · -- Both come to the same task: the follower hands it on, and the coordinator judges it once more.
    have honHop : c.assess now (onward (outgoing (r.identified (f.requestIdOf r)))) = .ok task := by
      rw [assess_onward, assess_outgoing, assess_identified, hc]
    have hmethod : (outgoing (r.identified (f.requestIdOf r))).method = r.method := by
      unfold outgoing
      split <;> rfl
    rw [attend_of_follower hf hfollower hurl hmark, attend_of_local hc hlocal]
    simp only [link, ↓reduceIte, attend_of_local honHop hlocal, relayed]
    refine ⟨?_, ?_, trivial, rfl⟩
    · simp only [Visit.conclude_status, relay_status]
    · simp only [Visit.conclude_body, relay_body, visitOf, onward, hmethod]
      split <;> rfl
  · -- Both turn it down, each by itself; the coordinator never hears of the one put to the follower.
    rw [attend_of_error hf, attend_of_error hc]
    refine ⟨?_, ?_, rfl, rfl⟩
    · rw [Visit.conclude_status, Visit.conclude_status, hstatus]
    · rw [Visit.conclude_body, Visit.conclude_body, hbody]
      rfl

/-- A node of a cluster with one inlet. -/
def member (role : AssignedRole) : Node :=
  ofConfig { Config.default with
    cluster := ⟨true, role, some "http://coordinator", 10000⟩
    grants := [⟨"*", "*", [.read, .write]⟩]
    inlets := [⟨"p1", "in", "", .stopped, 1⟩] } 0

/-- A request to remove the inlet in its first version. -/
def removal : Request := ⟨"DELETE", ⟨"/input-ports/p1", some "version=0"⟩, [], []⟩

/-- Put to a follower, the removal takes the inlet from the coordinator and from nobody else. -/
theorem follower_answers_as_coordinator_removal :
    let idle : Meanwhile := fun _ n => (.error (.internal "no such request"), n)
    let direct := (member .coordinator).attend idle (isolated Unit) 0 removal ()
    let viaFollower := (member .follower).attend idle
      (link "http://coordinator" (isolated (Node × Unit)) idle (isolated Unit) 0) 0 removal
      (member .coordinator, ())
    direct.1.status = 200 ∧ direct.2.1.service.ledger.store.size = 0 ∧
      viaFollower.1.status = direct.1.status ∧ viaFollower.1.body = direct.1.body ∧
      viaFollower.2.2.1.holdings = direct.2.1.holdings ∧
      viaFollower.2.1.holdings = (member .follower).holdings := by
  have hlocal : (member .coordinator).membership.role ≠ .follower := by decide
  have hroute : Route.ofPath? removal.target.path = some (.inlet "p1".toList) := by decide
  have hmark : isForwarded removal = false := by decide
  intro idle
  refine ⟨by decide +kernel, by decide +kernel, ?_⟩
  exact follower_answers_as_coordinator (f := member .follower) (c := member .coordinator)
    (r := removal) rfl rfl hlocal rfl rfl hroute hmark 0 idle idle (isolated Unit)
    (isolated (Node × Unit)) ()

end Node

end InletRegistry
