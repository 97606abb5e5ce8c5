import InletRegistry.Proofs.Node.Answers

/-!
# Which responses are signed

A node signs what comes of a request that it hears, and it relays the coordinator's answer under the
coordinator's own name. What it sets aside it does not sign, though: neither a refusal to a caller who
cannot be told, nor a path or a method that is not served, nor what cannot be read, nor how the node is.
And a name with a control character cannot stand in a header, so a node of such a name signs nothing.
-/

namespace InletRegistry

open InletRegistry.Http InletRegistry.Routing InletRegistry.Registry

variable {σ : Type}

/-! ## What is done to the names of a response -/

/-- The last touch to a response changes no field but three. -/
theorem Visit.conclude_values (v : Visit) (r : Response) {name : String}
    (hlength : name ≠ "content-length") (hallow : name ≠ "allow") (hid : name ≠ requestIdHeader) :
    (v.conclude r).headers.values name = r.headers.values name := by
  unfold conclude
  cases v.allowed <;>
    (simp only [Response.withHeader, Headers.values_set_ne hid]
     split <;> split <;> simp [Headers.values_set_ne, hlength, hallow])

namespace Node

variable {n : Node} {r : Request} {now : Nat} {answer : Response}

@[simp] theorem conclude_nodeHeader (v : Visit) (r : Response) :
    (v.conclude r).headers.values nodeHeader = r.headers.values nodeHeader :=
  v.conclude_values r (by decide) (by decide) (by decide)

@[simp] theorem relay_nodeHeader (r : Response) :
    (relay r).headers.values nodeHeader = r.headers.values nodeHeader :=
  Headers.values_without (by decide)

/-- A signature takes the place of every other, if there can be one. -/
theorem sign_nodeHeader (n : Node) (r : Response) :
    (n.sign r).headers.values nodeHeader =
      match headerValue? n.nodeId with
      | some value => [value]
      | none => r.headers.values nodeHeader := by
  unfold sign
  cases headerValue? n.nodeId with
  | some value => exact Headers.values_set _ _ _
  | none => rfl

/-- What is set aside is not signed. -/
theorem SetsAside.nodeHeader (h : n.SetsAside now r answer) :
    answer.headers.values nodeHeader = [] := by
  cases h with
  | untold _ => rfl
  | unserved _ _ => rfl
  | shown _ _ => rfl
  | illegible _ e => cases e <;> rfl

/-- What a node speaks for is signed, if its name can stand in a header. -/
theorem respond_nodeHeader (m : Node) (outcome : Outcome) :
    (m.respond outcome).headers.values nodeHeader = (headerValue? m.nodeId).toList := by
  have hsign : ∀ status value, (m.sign (.json status value)).headers.values nodeHeader =
      (headerValue? m.nodeId).toList := by
    intro status value
    rw [sign_nodeHeader]
    cases headerValue? m.nodeId <;> rfl
  cases outcome with
  | ok v => exact hsign _ _
  | error f => exact hsign _ _

/-- **A response names its node if the request was heard.** Whatever a node is asked, in whatever state
and whatever goes on while the request waits: an answer that it relays has the names that the
coordinator gave it, and no others. A response of its own has the node's name and no other exactly if
the request was heard and the name has no character that may not stand in a header, and else has no name
at all. -/
theorem responses_name_their_node {meanwhile : Meanwhile} (hname : meanwhile.KeepsName)
    (transport : Transport σ) (now : Nat) (r : Request) (n : Node) (s : σ) :
    let names := (n.attend meanwhile (noting transport) now r ([], s)).1.headers.values nodeHeader
    (∀ answer, n.Relays meanwhile transport now r s answer →
      names = answer.headers.values nodeHeader) ∧
    ((∀ answer, ¬ n.Relays meanwhile transport now r s answer) →
      (names = [headerValue n.nodeId] ↔ n.Hears now r ∧ ∀ c ∈ n.nodeId.toList, MayStand c) ∧
        (names = [headerValue n.nodeId] ∨ names = [])) := by
  intro names
  rcases attend_cases hname transport now r n s with
    ⟨relayed, hrelays, hresponse⟩ | ⟨hown, answer, hspoken, hresponse⟩
  · have hnames : names = relayed.headers.values nodeHeader := by
      show Headers.values _ _ = _
      rw [hresponse, conclude_nodeHeader, relay_nodeHeader]
    refine ⟨fun answer hanswer => ?_, fun hown => absurd hrelays (hown relayed)⟩
    rw [hnames, hrelays.unique hanswer]
  · have hnames : names = answer.headers.values nodeHeader := by
      show Headers.values _ _ = _
      rw [hresponse, conclude_nodeHeader]
    refine ⟨fun answer hanswer => absurd hanswer (hown answer), fun _ => ?_⟩
    rcases hspoken with ⟨hhears, m, outcome, hm, rfl⟩ | ⟨hunheard, haside⟩
    · rw [respond_nodeHeader, hm] at hnames
      rw [hnames]
      cases hvalue : headerValue? n.nodeId with
      | some value =>
        obtain ⟨rfl, hchars⟩ := headerValue?_eq_some_iff.mp hvalue
        exact ⟨⟨fun _ => ⟨hhears, hchars⟩, fun _ => rfl⟩, Or.inl rfl⟩
      | none =>
        refine ⟨⟨nofun, fun ⟨_, hchars⟩ => ?_⟩, Or.inr rfl⟩
        have hsome := headerValue?_eq_some_iff.mpr ⟨rfl, hchars⟩
        cases hvalue.symm.trans hsome
    · rw [haside.nodeHeader] at hnames
      rw [hnames]
      exact ⟨⟨nofun, fun h => absurd h.1 hunheard⟩, Or.inr rfl⟩

/-- A request to see how a node is. -/
def checkup : Request := ⟨"GET", ⟨"/health", none⟩, [], []⟩

/-- The removal of an inlet is answered in the name of the node that was asked to do it, and relayed in
the name of the one that did; how the node is, it tells in nobody's name. -/
theorem responses_name_their_node_removal :
    let answer : Response := ⟨200, [(nodeHeader, headerValue "n1")], []⟩
    let names := fun (n : Node) (r : Request) =>
      (n.attend .idle (noting (Script.transport 0)) 0 r ([], ⟨.ok answer, []⟩)).1.headers.values nodeHeader
    names (member .coordinator) removal = [headerValue "node-1"] ∧
      names (member .follower) removal = [headerValue "n1"] ∧
      names (member .coordinator) checkup = [] := by
  intro answer names
  have hsigns := fun n r => responses_name_their_node Meanwhile.keepsName_idle (Script.transport 0) 0 r n
    ⟨.ok answer, []⟩
  have hhears : (member .coordinator).Hears 0 removal :=
    ⟨"anonymous", "p1".toList, by decide, by decide, by decide,
      ⟨"p1", by decide⟩, by decide, fun _ => ⟨⟨some "0", none⟩, by decide +kernel⟩⟩
  have hunheard : ¬ (member .coordinator).Hears 0 checkup := by
    rintro ⟨-, segment, -, hroute, -⟩
    have hpath : Route.ofPath? checkup.target.path = some .health := by decide
    cases hpath.symm.trans hroute
  have hvalue : headerValue? (member .coordinator).nodeId = some (headerValue "node-1") := by decide
  have hchars := (headerValue?_eq_some_iff.mp hvalue).2
  have hrelays : (member .follower).Relays .idle (Script.transport 0) 0 removal ⟨.ok answer, []⟩ answer :=
    ⟨"http://coordinator", outgoing (removal.identified ((member .follower).requestIdOf removal)),
      by decide +kernel, rfl⟩
  have hremoval := (hsigns (member .coordinator) removal).2 fun _ => not_relays (by decide +kernel)
  have hcheckup := (hsigns (member .coordinator) checkup).2 fun _ => not_relays (by decide +kernel)
  refine ⟨hremoval.1.mpr ⟨hhears, hchars⟩, (hsigns (member .follower) removal).1 answer hrelays, ?_⟩
  exact hcheckup.2.resolve_left fun hsigned => hunheard (hcheckup.1.mp hsigned).1

/-- It is not so that a node signs every response of its own. -/
theorem not_every_response_is_signed :
    ¬ ∀ (c : Config) (fresh : Nat) (meanwhile : Meanwhile) (now : Nat) (r : Request),
      c.validate = .ok () → meanwhile.KeepsName →
      (∀ answer, ¬ (ofConfig c fresh).Relays meanwhile (isolated Unit) now r () answer) →
      ((ofConfig c fresh).attend meanwhile (isolated Unit) now r ()).1.headers.values nodeHeader =
        [headerValue c.nodeId] := by
  intro h
  have hsigned := h Config.default 0 .idle 0 checkup (by decide) Meanwhile.keepsName_idle
    fun _ => not_relays (by decide +kernel)
  exact absurd hsigned (by decide +kernel)

end Node

end InletRegistry
