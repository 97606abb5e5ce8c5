import InletRegistry.Proofs.Node.Admission
import InletRegistry.Proofs.Node.Verbatim
import InletRegistry.Proofs.Text.Uuid

/-!
# One identifier for a request

A request is seen by many: by what handles it, by the coordinator if it is sent there, and in the end its
client sees the response. They all know it under the same identifier. A client may choose it; if it does
not, or chooses one that cannot be read, the node makes one. Either way there is one value in the request
from then on, a hop leaves it as it is, and the node at the other end, which chooses by the same rule,
finds nothing to change. What is said of identifiers in an answer that is relayed does not matter, since
the last touch to a response puts the identifier of its request in place of all others.
-/

namespace InletRegistry

open InletRegistry.Text InletRegistry.Http InletRegistry.Routing

/-! ## Values of an identifier -/

namespace Http

variable {value : List UInt8} {text : String}

/-- What can be an identifier: visible ASCII, spaces and tabs, and at least one of these. -/
def IsUsable (value : List UInt8) : Prop := value ≠ [] ∧ ∀ b ∈ value, b = 9 ∨ 0x20 ≤ b ∧ b < 0x7F

theorem headerText?_of_isUsable (h : IsUsable value) : ∃ c cs, headerText? value = some (c :: cs) := by
  have hall : value.all (fun b => b = 9 || (0x20 ≤ b && b < 0x7F)) = true := by
    apply List.all_eq_true.mpr
    intro b hb
    simpa only [Bool.or_eq_true, decide_eq_true_eq, Bool.and_eq_true] using h.2 b hb
  rw [headerText?, if_pos hall]
  cases value with
  | nil => exact absurd rfl h.1
  | cons b bs => exact ⟨_, _, congrArg some List.map_cons⟩

theorem isUsable_of_headerText? {c : Char} {cs : List Char} (h : headerText? value = some (c :: cs)) :
    IsUsable value := by
  unfold headerText? at h
  split at h
  next hall =>
    constructor
    · rintro rfl
      cases h
    · intro b hb
      have hb := List.all_eq_true.mp hall b hb
      simpa only [Bool.or_eq_true, decide_eq_true_eq, Bool.and_eq_true] using hb
  next => cases h

theorem isUsable_headerValue (hne : text.toList ≠ []) (h : ∀ c ∈ text.toList, IsReadable c) :
    IsUsable (headerValue text) := by
  have hread : headerText? (headerValue text) = some text.toList :=
    headerText?_eq_some_iff.mpr ⟨rfl, h⟩
  cases htext : text.toList with
  | nil => exact absurd htext hne
  | cons c cs =>
    rw [htext] at hread
    exact isUsable_of_headerText? hread

/-- An identifier that was made is one. -/
theorem isUsable_uuid (n : Nat) : IsUsable (headerValue (Uuid.ofNat n)) := by
  apply isUsable_headerValue
  · intro hnil
    have hlength := Uuid.isUuid_ofNat n
    rw [hnil] at hlength
    cases hlength
  · intro c hc
    rcases Uuid.mem_ofNat hc with rfl | hdigit
    · exact Or.inr ⟨by decide, by decide⟩
    · have hrange := Uuid.isLowerHex_iff.mp hdigit
      exact Or.inr ⟨by omega, by omega⟩

end Http

/-! ## Messages with an identifier -/

namespace Http.Headers

variable {h : Headers} {id : List UInt8}

/-- A message has an identifier and no other. -/
def Carries (h : Headers) (id : List UInt8) : Prop := h.values requestIdHeader = [id]

/-- A hop leaves an identifier as it is. -/
theorem Carries.forwardHeaders (hid : h.Carries id) : (forwardHeaders h).Carries id := by
  have hmark : requestIdHeader ≠ forwardedHeader := by decide
  have hhop : requestIdHeader ∉ hopByHop := by decide
  rw [Carries, Routing.forwardHeaders, values_set_ne hmark, values_without hhop]
  exact hid

end Http.Headers

theorem Http.Request.identified_carries (r : Request) (id : List UInt8) :
    (r.identified id).headers.Carries id := Headers.values_set _ _ _

/-- The last touch to a response puts the identifier in place of all others. -/
theorem Visit.conclude_carries (v : Visit) (r : Response) :
    (v.conclude r).headers.Carries v.requestId := Headers.values_set _ _ _

/-- The last touch, if there is a response already. -/
def Progress.conclude (v : Visit) : Progress → Progress
  | .answered response => .answered (v.conclude response)
  | .waiting ticket => .waiting ticket

namespace Node

variable {σ : Type} {n : Node} {r : Request} {now : Nat} {value id : List UInt8}

/-! ## The choice -/

/-- The rule by which a node chooses the identifier of a request. -/
structure Picks (n : Node) (r : Request) (id : List UInt8) : Prop where
  /-- The client's first value is the identifier if it can be one. -/
  kept : ∀ value, r.headers.first? requestIdHeader = some value → IsUsable value → id = value
  /-- If it cannot be one, or there is none, the identifier is a uuid of version 4, and one that the
  node has not made of any of the numbers before. -/
  made : (∀ value, r.headers.first? requestIdHeader = some value → ¬ IsUsable value) →
    id = headerValue (Uuid.ofNat n.service.ledger.fresh) ∧
      Uuid.isUuid (Uuid.ofNat n.service.ledger.fresh).toList = true ∧
      ∀ k < n.service.ledger.fresh, n.service.ledger.fresh - k < 2 ^ 122 →
        Uuid.ofNat k ≠ Uuid.ofNat n.service.ledger.fresh

theorem requestIdOf_of_usable (hfirst : r.headers.first? requestIdHeader = some value)
    (h : IsUsable value) : n.requestIdOf r = value := by
  obtain ⟨c, cs, hread⟩ := headerText?_of_isUsable h
  rw [requestIdOf, hfirst]
  simp only [hread]

theorem requestIdOf_of_none
    (h : ∀ value, r.headers.first? requestIdHeader = some value → ¬ IsUsable value) :
    n.requestIdOf r = headerValue (Uuid.ofNat n.service.ledger.fresh) := by
  unfold requestIdOf
  split
  next value hfirst =>
    split
    next c cs hread => exact absurd (isUsable_of_headerText? hread) (h value hfirst)
    next => rfl
  next => rfl

theorem picks_requestIdOf (n : Node) (r : Request) : n.Picks r (n.requestIdOf r) where
  kept _ hfirst husable := requestIdOf_of_usable hfirst husable
  made hnone := by
    refine ⟨requestIdOf_of_none hnone, Uuid.isUuid_ofNat _, fun k hk hnear heq => ?_⟩
    have hbits := Uuid.mod_eq_of_ofNat_eq heq
    omega

/-- Whatever a node chooses can be chosen again. -/
theorem isUsable_requestIdOf (n : Node) (r : Request) : IsUsable (n.requestIdOf r) := by
  by_cases h : ∃ value, r.headers.first? requestIdHeader = some value ∧ IsUsable value
  · obtain ⟨value, hfirst, husable⟩ := h
    rw [requestIdOf_of_usable hfirst husable]
    exact husable
  · rw [requestIdOf_of_none fun value hfirst husable => h ⟨value, hfirst, husable⟩]
    exact isUsable_uuid _

/-- Every node knows a request under the identifier that it carries, if that can be one. -/
theorem requestIdOf_of_carries (h : r.headers.Carries id) (husable : IsUsable id) (c : Node) :
    c.requestIdOf r = id := by
  apply requestIdOf_of_usable _ husable
  rw [Headers.first?_eq_head?, h, List.head?_cons]

/-! ## Everybody who sees the request -/

/-- What becomes of a request once it has its identifier. -/
def pursue (transport : Transport σ) (now : Nat) (r : Request) (n : Node) (s : σ) :
    Progress × Node × σ :=
  match n.callerOf now r with
  | .error f => (.answered (.ofFailure f), n, s)
  | .ok caller => n.visitRoute transport now caller r s

/-- A request has its identifier before anything is made of it, and what handles it sees no other. -/
theorem receive_eq_pursue (transport : Transport σ) (s : σ) :
    n.receive transport now r s =
      let pursued := n.skipId.pursue transport now (r.identified (n.requestIdOf r)) s
      (n.visitOf r, pursued.1.conclude (n.visitOf r), pursued.2) := by
  rw [receive_eq_process, ← callerOf_identified (n.requestIdOf r)]
  unfold pursue process
  rw [show n.skipId.callerOf now (r.identified (n.requestIdOf r)) =
    n.callerOf now (r.identified (n.requestIdOf r)) from rfl]
  cases n.callerOf now (r.identified (n.requestIdOf r)) with
  | error f => rfl
  | ok caller =>
    simp only
    rcases n.skipId.visitRoute transport now caller (r.identified (n.requestIdOf r)) s with
      ⟨⟨response⟩ | ⟨ticket⟩, m, s⟩ <;> rfl

/-- A response has gone through the last touch, whatever it says and whatever went on meanwhile. -/
theorem attend_eq_conclude (meanwhile : Meanwhile) (transport : Transport σ) (now : Nat) (r : Request)
    (n : Node) (s : σ) :
    ∃ answer, (n.attend meanwhile transport now r s).1 = (n.visitOf r).conclude answer := by
  unfold attend
  rw [receive_eq_pursue]
  rcases n.skipId.pursue transport now (r.identified (n.requestIdOf r)) s with
    ⟨⟨response⟩ | ⟨ticket⟩, m, s⟩
  · exact ⟨response, rfl⟩
  · exact ⟨(meanwhile ticket m).2.respond (meanwhile ticket m).1, rfl⟩

theorem attend_carries (meanwhile : Meanwhile) (transport : Transport σ) (now : Nat) (r : Request)
    (n : Node) (s : σ) :
    (n.attend meanwhile transport now r s).1.headers.Carries (n.requestIdOf r) := by
  obtain ⟨answer, hanswer⟩ := attend_eq_conclude meanwhile transport now r n s
  rw [hanswer]
  exact Visit.conclude_carries (n.visitOf r) answer

/-- What is asked of the network is to send the request under its identifier. -/
theorem asked_identified {meanwhile : Meanwhile} {transport : Transport σ} {s : σ}
    {p : String × Request} (h : p ∈ (n.attend meanwhile (noting transport) now r ([], s)).2.2.1) :
    p.2 = outgoing (r.identified (n.requestIdOf r)) := by
  cases htask : n.assess now r with
  | error answer =>
    rw [attend_of_error htask] at h
    cases h
  | ok task =>
    by_cases hfollower : n.membership.role = .follower
    · rw [attend_of_forward htask hfollower] at h
      simp only [forward] at h
      cases hdestination : destination n.membership (outgoing (r.identified (n.requestIdOf r))) with
      | error obstacle =>
        rw [hdestination] at h
        cases h
      | ok url =>
        rw [hdestination] at h
        rw [List.mem_singleton.mp h]
    · rw [attend_of_local htask hfollower] at h
      cases h

theorem outgoing_headers (r : Request) : (outgoing r).headers = r.headers := by
  unfold outgoing
  split <;> rfl

/-- **A request has one identifier, and everybody knows it under that.** Whatever values a request has
for an identifier, whatever it asks for and whatever comes of it: the node chooses by its rule. It puts
the choice in place of all values that there were, and what handles the request gets it like this. The
response to the client has this identifier and no other, whatever the network answers and whatever goes
on at the node meanwhile. So has what the network is asked to send, in front of the hop and behind it. A
node to which it comes, any node, chooses the same identifier again and responds under it. -/
theorem one_identifier (meanwhile : Meanwhile) (transport : Transport σ) (now : Nat) (r : Request)
    (n : Node) (s : σ) :
    let id := n.requestIdOf r
    let pursued := n.skipId.pursue (noting transport) now (r.identified id) ([], s)
    let seen := n.attend meanwhile (noting transport) now r ([], s)
    n.Picks r id ∧
    (n.receive (noting transport) now r ([], s) =
        (n.visitOf r, pursued.1.conclude (n.visitOf r), pursued.2) ∧
      (r.identified id).headers.Carries id) ∧
    seen.1.headers.Carries id ∧
    ∀ p ∈ seen.2.2.1, p.2.headers.Carries id ∧ (onward p.2).headers.Carries id ∧
      ∀ (c : Node) (arrived : Request),
        arrived.headers.values requestIdHeader = (onward p.2).headers.values requestIdHeader →
        c.requestIdOf arrived = id ∧
          ∀ {τ : Type} (later : Meanwhile) (elsewhere : Transport τ) (moment : Nat) (t : τ),
            (c.attend later elsewhere moment arrived t).1.headers.Carries id := by
  intro id pursued seen
  refine ⟨picks_requestIdOf n r, ⟨receive_eq_pursue _ _, r.identified_carries id⟩,
    attend_carries meanwhile _ now r n _, fun p hp => ?_⟩
  have hsent : p.2.headers.Carries id := by
    rw [asked_identified hp, outgoing_headers]
    exact r.identified_carries id
  have honward : (onward p.2).headers.Carries id := hsent.forwardHeaders
  refine ⟨hsent, honward, fun c arrived harrived => ?_⟩
  have hcarries : arrived.headers.Carries id := harrived.trans honward
  have hkept : c.requestIdOf arrived = id :=
    requestIdOf_of_carries hcarries (isUsable_requestIdOf n r) c
  refine ⟨hkept, fun later elsewhere moment t => ?_⟩
  rw [← hkept]
  exact attend_carries later elsewhere moment arrived c t

/-- A request to see an inlet, with several identifiers. -/
def manifold : Request :=
  ⟨"GET", ⟨"/input-ports/p1", none⟩, [(requestIdHeader, headerValue "r1"), ("accept", headerValue "*/*"),
    (requestIdHeader, headerValue "r2"), (requestIdHeader, [0xFF])], []⟩

/-- Its first identifier is the one under which the coordinator knows it too, and the one in the response
to the client, though the coordinator's answer has two others. A request whose first identifier cannot be
read gets a new one. -/
theorem one_identifier_relayed :
    let answer : Response :=
      ⟨200, [(requestIdHeader, headerValue "r3"), (requestIdHeader, headerValue "r4")], []⟩
    let seen := (member .follower).attend .idle (noting (Script.transport 0)) 0 manifold
      ([], ⟨.ok answer, []⟩)
    seen.1.headers.Carries (headerValue "r1") ∧
      (∃ p ∈ seen.2.2.1, p.2.headers.Carries (headerValue "r1") ∧
        (member .coordinator).requestIdOf (onward p.2) = headerValue "r1") ∧
      (member .follower).requestIdOf { manifold with headers := manifold.headers.reverse } =
        headerValue "00000000-0000-4000-8000-000000000000" := by
  intro answer seen
  have hseen := one_identifier .idle (Script.transport 0) 0 manifold (member .follower) ⟨.ok answer, []⟩
  have hmade := one_identifier .idle (Script.transport 0) 0
    { manifold with headers := manifold.headers.reverse } (member .follower) ⟨.ok answer, []⟩
  obtain ⟨hpicks, -, hresponse, hasked⟩ := hseen
  have hread : headerText? (headerValue "r1") = some ['r', '1'] := by decide
  have husable : IsUsable (headerValue "r1") := isUsable_of_headerText? hread
  have hid : (member .follower).requestIdOf manifold = headerValue "r1" := hpicks.kept _ rfl husable
  rw [hid] at hresponse hasked
  have hmem : ("http://coordinator", outgoing (manifold.identified (headerValue "r1"))) ∈ seen.2.2.1 := by
    decide +kernel
  obtain ⟨hsent, -, harrives⟩ := hasked _ hmem
  refine ⟨hresponse, ⟨_, hmem, hsent, (harrives (member .coordinator) _ rfl).1⟩, ?_⟩
  refine (hmade.1.made fun value hfirst husable => ?_).1
  obtain rfl : [0xFF] = value := Option.some.inj hfirst
  exact absurd (husable.2 0xFF (List.mem_singleton_self _)) (by decide)

end Node

end InletRegistry
