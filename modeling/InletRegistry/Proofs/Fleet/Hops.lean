import InletRegistry.Course
import InletRegistry.Proofs.Node.Assess
import InletRegistry.Routing.Wire
import Mathlib.Data.List.Perm.Basic

/-!
# Requests travel at most once

Any number of nodes, each with a role of its own and with whatever address it takes for that of its
coordinator, and the requests that are on their way to them. A client sends a request to a node. A
request that is on its way arrives at some later moment, or never. The node answers it, carries it
out, or sends it on; what it sends on is on its way again. Between any two of these a node may be
told another role, and what it keeps may change as it likes.

Who is reached at a URL is up to a directory of which nothing is asked: addresses may be unknown,
lead back to the node itself, to another follower, or round in a circle. Responses are left out;
they are relayed on the way back and start nothing.

What bounds the journey is the mark that a follower puts on what it sends on: an unmarked request has
two stops before it at most and a marked one has a single one.
-/

namespace InletRegistry

open InletRegistry.Http InletRegistry.Net InletRegistry.Routing InletRegistry.Cluster
  InletRegistry.Registry

/-! ## What a node does with a request -/

/-- What a node does with a request that comes to it. -/
inductive Fleet.Deed where
  | answered (r : Response)
  | carriedOut (task : Task)
  /-- It has it sent to the coordinator at an address. -/
  | sentOn (address : String) (r : Request)

namespace Fleet.Deed

def isCarriedOut : Deed → Bool
  | carriedOut _ => true
  | _ => false

def isSentOn : Deed → Bool
  | sentOn _ _ => true
  | _ => false

end Fleet.Deed

namespace Node

open Fleet

variable {n : Node} {now : Nat} {r : Request}

def deed (now : Nat) (r : Request) (n : Node) : Deed :=
  match n.assess now r with
  | .error answer => .answered answer
  | .ok task =>
    if n.membership.mustForward then
      match destination n.membership r with
      | .error obstacle => .answered (n.refuse obstacle.toFailure)
      | .ok address => .sentOn address (outgoing (r.identified (n.requestIdOf r)))
    else .carriedOut task

/-- What a deed leaves of the node and of the network. A node that answers or sends on only uses up an
identifier, and to carry a task out is to start it. -/
def enact (now : Nat) (r : Request) (n : Node) : Deed → Visit × Progress × Node × Errand
  | .answered answer => (n.visitOf r, .answered ((n.visitOf r).conclude answer), n.skipId, ⟨none⟩)
  | .sentOn address sent =>
    (n.visitOf r, .answered ((n.visitOf r).conclude (n.refuse (.internal "not sent yet"))),
      n.skipId, ⟨some (address, sent)⟩)
  | .carriedOut task =>
    match n.skipId.start now task with
    | (.ok outcome, n') =>
      (n.visitOf r, .answered ((n.visitOf r).conclude (n'.respond outcome)), n', ⟨none⟩)
    | (.error ticket, n') => (n.visitOf r, .waiting ticket, n', ⟨none⟩)

/-- **The deed is what the node does**, and what is to be sent is exactly what it says. -/
theorem receive_deed (now : Nat) (r : Request) (n : Node) :
    n.receive Errand.transport now r ⟨none⟩ = n.enact now r (n.deed now r) := by
  have hdestination : destination n.skipId.membership (outgoing (r.identified (n.requestIdOf r))) =
      destination n.membership r := by
    unfold destination
    rw [isForwarded_outgoing_identified]
    rfl
  have hrole : n.skipId.membership.mustForward = n.membership.mustForward := rfl
  rw [receive_eq, deed]
  cases n.assess now r with
  | error answer => rfl
  | ok task =>
    simp only [undertake, hrole]
    by_cases hforward : n.membership.mustForward = true
    · simp only [hforward, ↓reduceIte, forward, hdestination]
      cases destination n.membership r <;> rfl
    · simp only [hforward, Bool.false_eq_true, ↓reduceIte, enact]
      rcases n.skipId.start now task with ⟨⟨ticket⟩ | ⟨outcome⟩, n'⟩ <;> rfl

/-- Only what bears no mark is sent on. -/
theorem isForwarded_of_sentOn {address : String} {sent : Request}
    (h : n.deed now r = .sentOn address sent) : isForwarded r = false := by
  unfold deed at h
  split at h
  · cases h
  · split at h
    · cases hd : destination n.membership r with
      | error obstacle => simp only [hd, reduceCtorEq] at h
      | ok address =>
        unfold destination at hd
        cases hmark : isForwarded r with
        | true => simp only [hmark, ↓reduceIte, reduceCtorEq] at hd
        | false => rfl
    · cases h

/-- A marked request that comes to a task is carried out where it is, unless that is a follower; a
follower turns it down for want of a coordinator. -/
theorem deed_of_isForwarded {task : Task} (hmark : isForwarded r = true)
    (h : n.assess now r = .ok task) :
    n.deed now r =
      if n.membership.role = .follower then
        .answered (n.refuse Obstacle.alreadyForwarded.toFailure)
      else .carriedOut task := by
  unfold deed
  simp only [h, destination, hmark, ↓reduceIte, Membership.mustForward_iff]

end Node

namespace Fleet

/-- A request on its way to a node, and the number of the client's request that gave rise to it. -/
structure Missive where
  origin : Nat
  node : Nat
  request : Request

namespace Missive

def isMarked (m : Missive) : Bool := isForwarded m.request

end Missive

/-- A request that came to a node. -/
structure Stop extends Missive where
  /-- The node as it was then. -/
  host : Node
  now : Nat

def Stop.deed (s : Stop) : Deed := s.host.deed s.now s.request

/-- The request as it comes to where it is sent on. -/
def arriving (url : Url) (r : Request) : Request :=
  { onward r with target := Target.parse url.target }

end Fleet

open Fleet

/-- Nodes with the requests that are on their way to them. -/
structure Convoy where
  nodes : List Node
  /-- What clients have sent, in order. -/
  calls : List Request
  /-- What is on its way. -/
  flying : List Missive
  /-- What has arrived, in order. -/
  stops : List Stop

namespace Convoy

inductive Event where
  /-- A client sends a request to a node. -/
  | call (node : Nat) (r : Request)
  /-- One of the requests on their way arrives. -/
  | arrive (k now : Nat)
  /-- One of them gets lost. -/
  | lose (k : Nat)
  | role (node : Nat) (call : RoleCall)
  /-- What a node keeps changes: a lock is handed on, a waiting order goes on, or anything else. -/
  | turn (node : Nat) (service : Service)

/-- Where a request is from now on if it is sent on at a stop. -/
def further? (directory : Url → Option Nat) (s : Stop) : Option Missive :=
  match s.deed with
  | .sentOn address r =>
    match hop address r with
    | .ok url => (directory url).map fun node => ⟨s.origin, node, arriving url r⟩
    | .error _ => none
  | _ => none

/-- The convoy after an event, if that is possible. -/
def next? (directory : Url → Option Nat) (t : Convoy) : Event → Option Convoy
  | .call node r =>
    some { t with calls := t.calls ++ [r], flying := t.flying ++ [⟨t.calls.length, node, r⟩] }
  | .arrive k now =>
    (t.flying[k]?).bind fun m => (t.nodes[m.node]?).map fun n =>
      let (_, _, n', _) := n.receive Errand.transport now m.request ⟨none⟩
      let stop : Stop := ⟨m, n, now⟩
      { t with
        nodes := t.nodes.set m.node n'
        flying := t.flying.eraseIdx k ++ (further? directory stop).toList
        stops := t.stops ++ [stop] }
  | .lose k => some { t with flying := t.flying.eraseIdx k }
  | .role node call =>
    (t.nodes[node]?).map fun n =>
      { t with nodes := t.nodes.set node { n with membership := n.membership.heed call } }
  | .turn node service =>
    (t.nodes[node]?).map fun n => { t with nodes := t.nodes.set node { n with service } }

/-- Nodes to which no request has been sent yet. -/
def start (nodes : List Node) : Convoy := ⟨nodes, [], [], []⟩

abbrev run? (directory : Url → Option Nat) (t : Convoy) (events : List Event) : Option Convoy :=
  course? (next? directory) t events

variable {directory : Url → Option Nat} {t u : Convoy} {e : Event} {i : Nat} {r : Request}

/-! ## What is on its way -/

/-- That a request is the client's own, or an unmarked one of the client's that has got the mark. -/
def Stems (calls : List Request) (m : Missive) : Prop :=
  ∃ r, calls[m.origin]? = some r ∧
    (m.request = r ∨ (isForwarded r = false ∧ m.isMarked = true))

theorem Stems.lt {calls : List Request} {m : Missive} (h : Stems calls m) :
    m.origin < calls.length := by
  obtain ⟨r, hr, -⟩ := h
  exact (List.getElem?_eq_some_iff.mp hr).1

theorem Stems.append {calls more : List Request} {m : Missive} (h : Stems calls m) :
    Stems (calls ++ more) m := by
  obtain ⟨r, hr, hfrom⟩ := h
  refine ⟨r, ?_, hfrom⟩
  rw [List.getElem?_append_left (List.getElem?_eq_some_iff.mp hr).1]
  exact hr

/-- What goes on from a stop was sent on there, comes from the same client and bears the mark. -/
theorem further?_eq_some {s : Stop} {m : Missive} (h : further? directory s = some m) :
    s.deed.isSentOn = true ∧ m.origin = s.origin ∧ m.isMarked = true := by
  unfold further? at h
  cases hd : s.deed with
  | answered r => simp only [hd, reduceCtorEq] at h
  | carriedOut task => simp only [hd, reduceCtorEq] at h
  | sentOn address r =>
    simp only [hd] at h
    cases hu : hop address r with
    | error f => simp only [hu, reduceCtorEq] at h
    | ok url =>
      simp only [hu, Option.map_eq_some_iff] at h
      obtain ⟨node, -, rfl⟩ := h
      exact ⟨rfl, rfl, isForwarded_onward r⟩

/-- What is sent on at a stop came there without the mark. -/
theorem isMarked_of_isSentOn {s : Stop} (h : s.deed.isSentOn = true) : s.isMarked = false := by
  cases hd : s.deed with
  | sentOn address r => exact Node.isForwarded_of_sentOn hd
  | answered r =>
    rw [hd] at h
    cases h
  | carriedOut task =>
    rw [hd] at h
    cases h

/-! ## How often -/

/-- How many stops a client's request has had. -/
def stopsOf (t : Convoy) (i : Nat) : Nat := t.stops.countP (·.origin = i)

/-- How often it has been sent on. -/
def hopsOf (t : Convoy) (i : Nat) : Nat :=
  t.stops.countP fun s => s.origin = i && s.deed.isSentOn

/-- How often it has been carried out. -/
def runsOf (t : Convoy) (i : Nat) : Nat :=
  t.stops.countP fun s => s.origin = i && s.deed.isCarriedOut

/-- How often it is on its way. -/
def flyingOf (t : Convoy) (i : Nat) : Nat := t.flying.countP (·.origin = i)

/-- How often it is on its way without a mark. -/
def unmarkedOf (t : Convoy) (i : Nat) : Nat :=
  t.flying.countP fun m => m.origin = i && !m.isMarked

/-- The stops, hops and executions of a client's request, with those that there may still be. -/
structure Bounded (t : Convoy) (i : Nat) (r : Request) : Prop where
  stops : t.stopsOf i + t.flyingOf i + t.unmarkedOf i ≤ 2
  hops : t.hopsOf i + t.unmarkedOf i ≤ if isForwarded r then 0 else 1
  runs : t.runsOf i + t.flyingOf i ≤ 1

/-- What every course keeps. -/
structure Steady (t : Convoy) : Prop where
  flying : ∀ m ∈ t.flying, Stems t.calls m
  stops : ∀ s ∈ t.stops, Stems t.calls s.toMissive
  bounded : ∀ (i : Nat) (r : Request), t.calls[i]? = some r → Bounded t i r

theorem Steady.start (nodes : List Node) : Steady (start nodes) where
  flying _ hm := absurd hm List.not_mem_nil
  stops _ hs := absurd hs List.not_mem_nil
  bounded i r hr := by
    have hnone : (Convoy.start nodes).calls[i]? = none := List.getElem?_nil
    rw [hnone] at hr
    cases hr

/-- Nothing has come of a request that has not been sent. -/
theorem Steady.of_ge (h : Steady t) (hi : t.calls.length ≤ i) :
    t.stopsOf i = 0 ∧ t.hopsOf i = 0 ∧ t.runsOf i = 0 ∧ t.flyingOf i = 0 ∧ t.unmarkedOf i = 0 := by
  have hflying : ∀ m ∈ t.flying, m.origin ≠ i := by
    intro m hm
    have := (h.flying m hm).lt
    omega
  have hstops : ∀ s ∈ t.stops, s.origin ≠ i := by
    intro s hs
    have := (h.stops s hs).lt
    omega
  refine ⟨?_, ?_, ?_, ?_, ?_⟩
  all_goals
    refine List.countP_eq_zero.mpr fun x hx => ?_
  · simp only [hstops x hx, decide_false, Bool.false_eq_true, not_false_eq_true]
  · simp only [hstops x hx, decide_false, Bool.false_and, Bool.false_eq_true, not_false_eq_true]
  · simp only [hstops x hx, decide_false, Bool.false_and, Bool.false_eq_true, not_false_eq_true]
  · simp only [hflying x hx, decide_false, Bool.false_eq_true, not_false_eq_true]
  · simp only [hflying x hx, decide_false, Bool.false_and, Bool.false_eq_true, not_false_eq_true]

/-- A client sends a request. -/
theorem Steady.call (h : Steady t) (node : Nat) (r : Request) :
    Steady { t with
      calls := t.calls ++ [r], flying := t.flying ++ [⟨t.calls.length, node, r⟩] } := by
  refine ⟨?_, fun s hs => (h.stops s hs).append, ?_⟩
  · intro m hm
    rcases List.mem_append.mp hm with hm | hm
    · exact (h.flying m hm).append
    · rw [List.mem_singleton.mp hm]
      exact ⟨r, List.getElem?_concat_length, Or.inl rfl⟩
  · intro i r' hr'
    -- What the new request adds to what is on its way.
    have hflying : flyingOf { t with
        calls := t.calls ++ [r], flying := t.flying ++ [⟨t.calls.length, node, r⟩] } i =
        t.flyingOf i + if t.calls.length = i then 1 else 0 := by
      simp only [flyingOf, List.countP_append, List.countP_singleton, decide_eq_true_eq]
    have hunmarked : unmarkedOf { t with
        calls := t.calls ++ [r], flying := t.flying ++ [⟨t.calls.length, node, r⟩] } i =
        t.unmarkedOf i + if t.calls.length = i ∧ isForwarded r = false then 1 else 0 := by
      simp only [unmarkedOf, List.countP_append, List.countP_singleton, Bool.and_eq_true,
        decide_eq_true_eq, Bool.not_eq_true', Missive.isMarked]
    suffices h : t.stopsOf i + (t.flyingOf i + if t.calls.length = i then 1 else 0) +
          (t.unmarkedOf i + if t.calls.length = i ∧ isForwarded r = false then 1 else 0) ≤ 2 ∧
        t.hopsOf i + (t.unmarkedOf i +
          if t.calls.length = i ∧ isForwarded r = false then 1 else 0) ≤
            (if isForwarded r' then 0 else 1) ∧
        t.runsOf i + (t.flyingOf i + if t.calls.length = i then 1 else 0) ≤ 1 by
      rw [← hflying, ← hunmarked] at h
      exact ⟨h.1, h.2.1, h.2.2⟩
    rcases Nat.lt_or_ge i t.calls.length with hi | hi
    · have hr : t.calls[i]? = some r' := by
        rw [← hr', List.getElem?_append_left hi]
      have hne : ¬ t.calls.length = i := by omega
      obtain ⟨hstops, hhops, hruns⟩ := h.bounded i r' hr
      simp only [hne, false_and, ↓reduceIte, Nat.add_zero]
      exact ⟨hstops, hhops, hruns⟩
    · have hlt := (List.getElem?_eq_some_iff.mp hr').1
      simp only [List.length_append, List.length_singleton] at hlt
      have heq : t.calls.length = i := by omega
      obtain rfl : r = r' := by
        rw [← heq, List.getElem?_concat_length] at hr'
        exact Option.some.inj hr'
      obtain ⟨hstops, hhops, hruns, hfly, hunm⟩ := h.of_ge hi
      rw [hstops, hhops, hruns, hfly, hunm]
      cases isForwarded r <;> simp [heq]

/-- A request that gets lost comes to nothing more. -/
theorem Steady.lose (h : Steady t) (k : Nat) : Steady { t with flying := t.flying.eraseIdx k } := by
  have hsub := List.eraseIdx_sublist t.flying k
  refine ⟨fun m hm => h.flying m (hsub.mem hm), h.stops, ?_⟩
  intro i r hr
  obtain ⟨hstops, hhops, hruns⟩ := h.bounded i r hr
  have hflying : flyingOf { t with flying := t.flying.eraseIdx k } i ≤ t.flyingOf i := hsub.countP_le
  have hunmarked : unmarkedOf { t with flying := t.flying.eraseIdx k } i ≤ t.unmarkedOf i :=
    hsub.countP_le
  refine ⟨?_, ?_, ?_⟩
  · show t.stopsOf i + _ + _ ≤ 2
    omega
  · show t.hopsOf i + _ ≤ _
    omega
  · show t.runsOf i + _ ≤ 1
    omega

theorem countP_eraseIdx {α : Type} (p : α → Bool) {l : List α} {k : Nat} {a : α}
    (h : l[k]? = some a) : l.countP p = (l.eraseIdx k).countP p + if p a then 1 else 0 := by
  obtain ⟨hk, rfl⟩ := List.getElem?_eq_some_iff.mp h
  rw [← (List.getElem_cons_eraseIdx_perm hk).countP_eq p, List.countP_cons]

/-- What may follow a stop is on its way only if it is sent on. -/
theorem countP_further?_le (directory : Url → Option Nat) (s : Stop) (i : Nat) :
    (further? directory s).toList.countP (·.origin = i) ≤
      if s.origin = i ∧ s.deed.isSentOn = true then 1 else 0 := by
  cases hf : further? directory s with
  | none => exact Nat.zero_le _
  | some m =>
    obtain ⟨hsent, horigin, -⟩ := further?_eq_some hf
    simp only [Option.toList_some, List.countP_singleton, horigin, hsent, and_true,
      decide_eq_true_eq, Nat.le_refl]

theorem countP_further?_unmarked (directory : Url → Option Nat) (s : Stop) (i : Nat) :
    (further? directory s).toList.countP (fun m => m.origin = i && !m.isMarked) = 0 := by
  refine List.countP_eq_zero.mpr fun m hm => ?_
  obtain ⟨-, -, hmarked⟩ := further?_eq_some (Option.mem_toList.mp hm)
  simp only [hmarked, Bool.not_true, Bool.and_false, Bool.false_eq_true, not_false_eq_true]

/-- What a request comes to at a stop is paid for by what it was allowed before it. -/
theorem Bounded.arrive (h : Bounded t i r) {k : Nat} {stop : Stop}
    (hm : t.flying[k]? = some stop.toMissive) (nodes : List Node) :
    Bounded { t with
      nodes
      flying := t.flying.eraseIdx k ++ (further? directory stop).toList
      stops := t.stops ++ [stop] } i r := by
  obtain ⟨hstops, hhops, hruns⟩ := h
  have hflying := countP_eraseIdx (fun m => decide (m.origin = i)) hm
  have hunmarked := countP_eraseIdx (fun m => decide (m.origin = i) && !m.isMarked) hm
  have hnext := countP_further?_le directory stop i
  have hnextUnmarked := countP_further?_unmarked directory stop i
  have hsent : stop.deed.isSentOn = true → stop.isMarked = false := isMarked_of_isSentOn
  have honce : stop.deed.isSentOn = true → stop.deed.isCarriedOut = false := by
    cases stop.deed with
    | sentOn address sent => exact fun _ => rfl
    | _ => exact nofun
  simp only [stopsOf, hopsOf, runsOf, flyingOf, unmarkedOf] at hstops hhops hruns
  constructor
  · simp only [stopsOf, flyingOf, unmarkedOf, List.countP_append, List.countP_singleton]
    grind
  · simp only [hopsOf, unmarkedOf, List.countP_append, List.countP_singleton]
    grind
  · simp only [runsOf, flyingOf, List.countP_append, List.countP_singleton]
    grind

/-- A request arrives. -/
theorem Steady.arrive (h : Steady t) {k : Nat} {stop : Stop}
    (hm : t.flying[k]? = some stop.toMissive) (nodes : List Node) :
    Steady { t with
      nodes
      flying := t.flying.eraseIdx k ++ (further? directory stop).toList
      stops := t.stops ++ [stop] } := by
  have hstems : Stems t.calls stop.toMissive := h.flying _ (List.mem_of_getElem? hm)
  refine ⟨?_, ?_, fun i r hr => (h.bounded i r hr).arrive hm nodes⟩
  · intro m hmem
    rcases List.mem_append.mp hmem with hmem | hmem
    · exact h.flying m ((List.eraseIdx_sublist t.flying k).mem hmem)
    · obtain ⟨hsent, horigin, hmarked⟩ := further?_eq_some (Option.mem_toList.mp hmem)
      obtain ⟨r, hr, hown | ⟨-, hmark⟩⟩ := hstems
      · refine ⟨r, by rw [horigin, hr], Or.inr ⟨?_, hmarked⟩⟩
        rw [← hown]
        exact isMarked_of_isSentOn hsent
      · rw [isMarked_of_isSentOn hsent] at hmark
        cases hmark
  · intro s hs
    rcases List.mem_append.mp hs with hs | hs
    · exact h.stops s hs
    · rw [List.mem_singleton.mp hs]
      exact hstems

/-- What nodes are told, and what they keep, does not matter to what is on its way. -/
theorem Steady.withNodes (h : Steady t) (nodes : List Node) : Steady { t with nodes } where
  flying := h.flying
  stops := h.stops
  bounded i r hr := ⟨(h.bounded i r hr).stops, (h.bounded i r hr).hops, (h.bounded i r hr).runs⟩

theorem Steady.next (h : Steady t) (hnext : next? directory t e = some u) : Steady u := by
  cases e with
  | call node r =>
    cases hnext
    exact h.call node r
  | arrive k now =>
    obtain ⟨m, hm, hnext⟩ := Option.bind_eq_some_iff.mp hnext
    obtain ⟨host, -, rfl⟩ := Option.map_eq_some_iff.mp hnext
    have hstop : t.flying[k]? = some (Stop.mk m host now).toMissive := hm
    exact h.arrive hstop _
  | lose k =>
    cases hnext
    exact h.lose k
  | role node call =>
    obtain ⟨n, -, rfl⟩ := Option.map_eq_some_iff.mp hnext
    exact h.withNodes _
  | turn node service =>
    obtain ⟨n, -, rfl⟩ := Option.map_eq_some_iff.mp hnext
    exact h.withNodes _

theorem Steady.run {nodes : List Node} {events : List Event}
    (h : (Convoy.start nodes).run? directory events = some t) : Steady t :=
  course?_invariant (Steady.start nodes) (fun _ _ _ ht hnext => ht.next hnext) h

/-! ## The bounds -/

/-- What may come of a client's request. -/
structure TravelsOnce (t : Convoy) (i : Nat) (r : Request) : Prop where
  /-- At most two nodes are concerned with it. -/
  stops_le : t.stopsOf i ≤ 2
  /-- It is sent on once at most, and not at all if it came with the mark. -/
  hops_le : t.hopsOf i ≤ if isForwarded r then 0 else 1
  /-- It is carried out once at most. -/
  runs_le : t.runsOf i ≤ 1
  /-- What is told of a stop is what the node does there about the request. -/
  told : ∀ s ∈ t.stops, s.origin = i →
    s.host.receive Errand.transport s.now s.request ⟨none⟩ = s.host.enact s.now s.request s.deed
  /-- If it came with the mark and comes to a task, it is carried out where it was sent, unless that
  is a follower, which answers that no coordinator is available. -/
  marked : isForwarded r = true → ∀ s ∈ t.stops, s.origin = i → ∀ task,
    s.host.assess s.now r = .ok task →
      if s.host.membership.role = .follower then ∃ answer, s.deed = .answered answer ∧ answer.status = 503
      else s.deed = .carriedOut task

/-- **Requests travel at most once.** Whatever the nodes take for the addresses of their coordinators,
whoever is reached there, and whenever a node is told another role: a client's request is sent on at
most once, stops at most twice and is carried out at most once. -/
theorem requests_travel_once {nodes : List Node} {events : List Event}
    (h : (Convoy.start nodes).run? directory events = some t) (hr : t.calls[i]? = some r) :
    TravelsOnce t i r := by
  have hsteady := Steady.run h
  obtain ⟨hstops, hhops, hruns⟩ := hsteady.bounded i r hr
  refine ⟨by omega, by omega, by omega, fun s _ _ => Node.receive_deed s.now s.request s.host, ?_⟩
  intro hmark s hs horigin task htask
  have hrequest : s.request = r := by
    obtain ⟨r', hr', hown | ⟨hunmarked, -⟩⟩ := hsteady.stops s hs
    · rw [horigin, hr] at hr'
      rw [hown]
      exact (Option.some.inj hr').symm
    · rw [horigin, hr] at hr'
      rw [← Option.some.inj hr', hmark] at hunmarked
      cases hunmarked
  have hdeed : s.deed = _ := Node.deed_of_isForwarded (by rw [hrequest]; exact hmark)
    (by rw [hrequest]; exact htask)
  split
  case isTrue hfollower =>
    rw [if_pos hfollower] at hdeed
    exact ⟨_, hdeed, Node.sign_status _ _⟩
  case isFalse hlocal =>
    rw [if_neg hlocal] at hdeed
    exact hdeed

/-- A follower of a node at an address. -/
def followerOf (address : String) : Node :=
  .ofConfig { Config.default with cluster := ⟨true, .follower, some address, 10000⟩ } 0

/-- The first of two nodes is reached at the host `a`, the second at the host `b`. -/
def twoHosts (url : Url) : Option Nat :=
  if url.host = some ['a'] then some 0 else if url.host = some ['b'] then some 1 else none

/-- A request to see an inlet. -/
def look : Request := ⟨"GET", ⟨"/input-ports/p1", none⟩, [], []⟩

/-- A follower sends the request on to another, which is told to follow the first while it is on its
way. -/
def circle : List Event :=
  [.call 0 look, .arrive 0 0, .role 1 .becomeCoordinator, .role 1 (.stepDown (some "http://a")),
    .arrive 0 0]

/-- In a circle of two followers the request ends at the second. -/
theorem requests_travel_once_circle :
    ∃ t, (start [followerOf "http://b", followerOf "http://a"]).run? twoHosts circle = some t ∧
      t.calls[0]? = some look ∧ t.stopsOf 0 = 2 ∧ t.hopsOf 0 = 1 ∧ t.runsOf 0 = 0 ∧
      TravelsOnce t 0 look := by
  have hruns : ((start [followerOf "http://b", followerOf "http://a"]).run? twoHosts circle).map
      (fun t => (t.calls[0]?, t.stopsOf 0, t.hopsOf 0, t.runsOf 0)) = some (some look, 2, 1, 0) := by
    decide +kernel
  obtain ⟨t, ht, hvalues⟩ := Option.map_eq_some_iff.mp hruns
  simp only [Prod.mk.injEq] at hvalues
  obtain ⟨hcall, hstops, hhops, hnone⟩ := hvalues
  exact ⟨t, ht, hcall, hstops, hhops, hnone, requests_travel_once ht hcall⟩

end Convoy

end InletRegistry
