import InletRegistry.Proofs.Node.Location
import InletRegistry.Proofs.Node.Reception
import InletRegistry.Proofs.Registry.Retains
import Mathlib.Data.List.Forall2
import Mathlib.Logic.Relation

/-!
# Receptions that differ in what was left behind, or in one claim

A reception **retains** another if it is the same but for its locks, and these retain the locks of the
other. What is possible at one is possible at both, and it keeps them so (`Retains.next`). The answers are
the same too, except where a client asks how many locks the node has: there the first may count more.
As long as nobody is dropped, nothing is left behind, and no answer differs.

A claim that has not gone on yet may be lifted, unless the event befalls this claim: that is how a node
does without a request whose order waits (`exists_next?_lift`). Without the claim, one who is dropped may
leave a mutex behind that would have gone to the claim otherwise, and that is all the difference it makes.
-/

namespace InletRegistry.Reception

open InletRegistry.Http InletRegistry.Routing InletRegistry.Registry InletRegistry.Locks
open InletRegistry.LockTable

variable {t u v w : Reception} {e : Event} {events : List Event} {now i a k : Nat} {r : Request}
  {c d : Claim} {past : List Audit.Entry} {untidy : Prop}

/-! ## Calls -/

namespace Call

variable {call call' : Call}

/-- That two calls are answers about the node, and the first counts more locks. -/
def Recounts (call call' : Call) : Prop :=
  ∃ (visit : Visit) (n : Node) (locks : LockTable), n.service.locks.size ≤ locks.size ∧
    call' = .answered (visit.conclude (.json 200 n.status)) ∧
    call = .answered (visit.conclude
      (.json 200 ({ n with service := { n.service with locks } } : Node).status))

/-- That two calls differ in how many locks they count at most, and only where there may be mutexes that
nobody wants. -/
def Alike (untidy : Prop) : Call → Call → Prop :=
  Relation.ReflTransGen fun call call' => untidy ∧ Recounts call call'

theorem not_failed_of_recounts (h : Recounts call call') : call'.isFailed = false := by
  obtain ⟨visit, n, locks, -, rfl, -⟩ := h
  rw [isFailed, Visit.conclude_status]
  exact decide_eq_false (by decide : ¬ 400 ≤ 200)

namespace Alike

theorem refl (call : Call) : Alike untidy call call := Relation.ReflTransGen.refl

/-- A failure is the same in both. -/
theorem eq_of_failed (h : Alike untidy call call') (hfailed : call'.isFailed = true) :
    call = call' := by
  rcases Relation.ReflTransGen.cases_tail h with heq | ⟨call'', -, -, hrecounts⟩
  · exact heq.symm
  · rw [not_failed_of_recounts hrecounts] at hfailed
    cases hfailed

theorem eq (h : Alike untidy call call') (hnone : ¬ untidy) : call = call' := by
  rcases Relation.ReflTransGen.cases_tail h with heq | ⟨call'', -, huntidy, -⟩
  · exact heq.symm
  · exact absurd huntidy hnone

/-- What is done to calls that wait keeps others alike. -/
theorem map {change : Call → Call} (hchange : ∀ response, change (.answered response) = .answered response)
    (h : Alike untidy call call') : Alike untidy (change call) (change call') := by
  refine Relation.ReflTransGen.lift change ?_ _ _ h
  rintro _ _ ⟨huntidy, visit, n, locks, hle, rfl, rfl⟩
  exact ⟨huntidy, visit, n, locks, hle, hchange _, hchange _⟩

end Alike

end Call

theorem endedBy_answered (n : Node) (k : Nat) (outcome : Option Registry.Outcome) (response : Response) :
    endedBy n k outcome (.answered response) = .answered response := by
  cases outcome <;> rfl

theorem forall₂_eraseIdx {α : Type} {R : α → α → Prop} {l m : List α} (h : List.Forall₂ R l m) (i : Nat) :
    List.Forall₂ R (l.eraseIdx i) (m.eraseIdx i) := by
  induction h generalizing i with
  | nil => exact .nil
  | cons hhead htail ih =>
    cases i with
    | zero => exact htail
    | succ i => exact .cons hhead (ih i)

theorem exists_getElem?_of_forall₂ {α : Type} {R : α → α → Prop} {l m : List α} {y : α}
    (h : List.Forall₂ R l m) (hy : m[i]? = some y) : ∃ x, l[i]? = some x ∧ R x y := by
  induction h generalizing i with
  | nil => cases hy
  | cons hhead _ ih =>
    cases i with
    | zero =>
      obtain rfl := Option.some.inj hy
      exact ⟨_, rfl, hhead⟩
    | succ i => exact ih hy

theorem forall₂_trans {α : Type} {R : α → α → Prop} (htrans : ∀ {x y z}, R x y → R y z → R x z)
    {l m n : List α} (h : List.Forall₂ R l m) (g : List.Forall₂ R m n) : List.Forall₂ R l n := by
  induction h generalizing n with
  | nil => exact g
  | cons hhead _ ih =>
    cases g with
    | cons ghead gtail => exact .cons (htrans hhead ghead) (ih gtail)

/-! ## What was left behind -/

/-- That two receptions differ in their locks alone, and in these only by what was left behind, and have
given the same answers, but for how many locks they counted where there may be mutexes that nobody
wants. -/
structure Retains (untidy : Prop) (v t : Reception) : Prop where
  node : ∃ service, v.node = { t.node with service } ∧ service.Retains t.service
  calls : List.Forall₂ (Call.Alike untidy) v.calls t.calls

theorem next?_of_handed (hc : t.locks.handed? = some c) :
    t.next? (.resume c.ticket) = some (t.proceed c.ticket (·.resume c.ticket)) := by
  simp only [next?, hc, ↓reduceIte]

/-- As long as nobody is dropped, nothing is left behind. -/
theorem tidy_next (ht : t.Proper) (h : t.locks.Tidy) (he : t.next? e = some u)
    (hstays : e.isCancel = false) : u.locks.Tidy := by
  rcases next_cases he with ⟨c, hc, rfl, rfl⟩ | ⟨-, he⟩
  · obtain ⟨hclaim, hhanded⟩ := claim?_of_handed? ht.prompt.locks.sound hc
    rw [proceed_eq]
    exact Service.tidy_resume h ht.prompt hclaim hhanded
  · cases e with
    | request now r =>
      obtain rfl := Option.some.inj he
      rw [take_eq ht.executes]
      show (reaction t.node now r).2.locks.Tidy
      cases htask : t.node.assess now r with
      | error answer =>
        rw [reaction_of_error htask]
        exact h
      | ok task =>
        rw [reaction_of_task htask]
        exact Service.tidy_start? (s := t.node.skipId.service) h ht.skipId now task
    | resume k => cases he
    | expire k =>
      obtain ⟨⟨c, hc, hwaits⟩, rfl⟩ := map_claimAt?_eq_some.mp he
      rw [proceed_eq]
      exact Service.tidy_expire h ht.prompt hc hwaits
    | cancel k => cases hstays
    | hold now id patience =>
      obtain rfl := Option.some.inj he
      exact h.acquire ht.prompt.locks now id patience
    | release k =>
      obtain ⟨⟨c, hc, hheld⟩, rfl⟩ := map_claimAt?_eq_some.mp he
      exact Service.tidy_release h ht.prompt hc (of_decide_eq_true hheld)
    | pass identifiers tickets =>
      obtain rfl := Option.some.inj he
      exact h

theorem tidy_run (ht : t.Proper) (h : t.locks.Tidy) (hstay : ∀ e ∈ events, e.isCancel = false)
    (hrun : t.run? events = some u) : u.locks.Tidy := by
  induction events generalizing t with
  | nil =>
    cases hrun
    exact h
  | cons e events ih =>
    obtain ⟨v, he, hrest⟩ := Option.bind_eq_some_iff.mp hrun
    have hv := tidy_next ht h he (hstay e List.mem_cons_self)
    exact ih (ht.next he) hv (fun e he => hstay e (List.mem_cons_of_mem _ he)) hrest

namespace Retains

theorem refl (t : Reception) : Retains untidy t t :=
  ⟨⟨t.service, rfl, Service.Retains.refl _⟩, List.forall₂_same.mpr fun call _ => .refl call⟩

theorem trans (h : Retains untidy w v) (g : Retains untidy v t) : Retains untidy w t := by
  obtain ⟨service, hnode, hservice⟩ := h.node
  obtain ⟨service', hnode', hservice'⟩ := g.node
  have hsame : v.service = service' := congrArg Node.service hnode'
  exact ⟨⟨service, by rw [hnode, hnode'], hservice.trans (hsame ▸ hservice')⟩,
    forall₂_trans Relation.ReflTransGen.trans h.calls g.calls⟩

theorem service (h : Retains untidy v t) : v.service.Retains t.service := by
  obtain ⟨service, hnode, hservice⟩ := h.node
  rwa [Reception.service, hnode]

theorem locks (h : Retains untidy v t) : v.locks.Retains t.locks := h.service.locks

/-- The nodes differ in their locks alone. -/
theorem node_eq (h : Retains untidy v t) :
    v.node = { t.node with service := { t.node.service with locks := v.locks } } := by
  obtain ⟨service, hnode, locks, rfl, -⟩ := h.node
  rw [Reception.locks, Reception.service, hnode]
  rfl

theorem strike (h : Retains untidy v t) (i : Nat) : Retains untidy (v.strike i) (t.strike i) :=
  ⟨h.node, forall₂_eraseIdx h.calls i⟩

theorem onService (h : Retains untidy v t) {f g : Service → Service}
    (hservice : (f v.service).Retains (g t.service)) :
    Retains untidy (v.onService f) (t.onService g) := by
  obtain ⟨service, hnode, -⟩ := h.node
  refine ⟨⟨f v.service, ?_, hservice⟩, h.calls⟩
  simp only [Reception.onService, hnode]

/-- The order of a ticket goes on, or is given up, and the same comes of it. -/
theorem proceed (h : Retains untidy v t) {action : Service → Option Registry.Outcome × Service}
    (haction : (action v.service).1 = (action t.service).1 ∧
      (action v.service).2.Retains (action t.service).2) :
    Retains untidy (v.proceed k action) (t.proceed k action) := by
  obtain ⟨houtcome, hservice⟩ := haction
  obtain ⟨service, hnode, -⟩ := h.node
  rw [proceed_eq, proceed_eq, houtcome]
  refine ⟨⟨(action v.service).2, by simp only [Reception.onService, hnode], hservice⟩, ?_⟩
  have hended : endedBy v.node k (action t.service).1 = endedBy t.node k (action t.service).1 := by
    rw [hnode]
    rfl
  show List.Forall₂ _ (v.calls.map (endedBy v.node k _)) (t.calls.map (endedBy t.node k _))
  rw [hended, List.forall₂_map_left_iff, List.forall₂_map_right_iff]
  exact h.calls.imp fun _ _ halike => halike.map (endedBy_answered _ _ _)

variable (h : Retains untidy v t) (hv : v.Proper) (ht : t.Proper)
include h hv ht

/-- A request comes to the same at both, but that one may count more locks. -/
theorem callOf_alike (htidy : ¬ untidy → v.locks.Tidy) (now : Nat) (r : Request) :
    Call.Alike untidy (callOf v.node r (reaction v.node now r).1)
        (callOf t.node r (reaction t.node now r).1) ∧
      (reaction v.node now r).2.Retains (reaction t.node now r).2 := by
  have hnode := h.node_eq
  have hskip : v.node.skipId.service.Retains t.node.skipId.service := by
    rw [hnode]
    exact ⟨v.locks, rfl, h.locks⟩
  have hcallOf : callOf v.node r = callOf t.node r := by
    rw [hnode]
    rfl
  rw [hcallOf]
  have hkind : ({ t.node.service with locks := v.locks } : Service).kind = t.node.service.kind := rfl
  rcases Node.assess_withService now r hkind with hassess | ⟨hasks, hasks'⟩
  · rw [← hnode] at hassess
    cases htask : t.node.assess now r with
    | error answer =>
      rw [reaction_of_error htask, reaction_of_error (hassess.trans htask)]
      exact ⟨.refl _, hskip⟩
    | ok task =>
      obtain ⟨hresult, hstart⟩ := hskip.start? hv.skipId ht.skipId now task
      rw [reaction_of_task htask, reaction_of_task (hassess.trans htask), hresult]
      exact ⟨.refl _, hstart⟩
  · have hstatus : v.node.status =
        ({ t.node with service := { t.node.service with locks := v.locks } } : Node).status :=
      congrArg Node.status hnode
    rw [← hnode] at hasks'
    rw [reaction_of_error hasks, reaction_of_error hasks', hstatus]
    refine ⟨?_, hskip⟩
    by_cases huntidy : untidy
    · exact Relation.ReflTransGen.single ⟨huntidy, t.node.visitOf r, t.node, v.locks,
        h.locks.size_le ht.prompt.locks.sound, rfl, rfl⟩
    · have hsize : v.locks.size = t.node.service.locks.size :=
        h.locks.size_eq hv.prompt.locks.sound ht.prompt.locks.sound (htidy huntidy)
      simp only [Node.status, hsize]
      exact .refl _

theorem take (htidy : ¬ untidy → v.locks.Tidy) (now : Nat) (r : Request) :
    Retains untidy (v.take now r) (t.take now r) := by
  obtain ⟨hcall, hservice⟩ := h.callOf_alike hv ht htidy now r
  obtain ⟨service, hnode, -⟩ := h.node
  rw [take_eq ht.executes, take_eq hv.executes]
  refine ⟨⟨_, ?_, hservice⟩, List.rel_append h.calls (.cons hcall .nil)⟩
  simp only [Reception.onService, hnode]

theorem turn? (htidy : ¬ untidy → v.locks.Tidy) (he : t.turn? e = some u) :
    ∃ w, v.turn? e = some w ∧ Retains untidy w u := by
  have hclaim : ∀ {k : Nat} {c : Claim} (place : Stage → Bool), t.locks.claim? k = some c →
      place c.stage = true → ∃ d, v.locks.claim? k = some d ∧ place d.stage = true := by
    intro k c place hc hplace
    obtain ⟨d, hd, hblank⟩ := h.locks.claim? hc
    exact ⟨d, hd, (Claim.stage_eq_of_blank hblank).symm ▸ hplace⟩
  cases e with
  | request now r =>
    obtain rfl := Option.some.inj he
    exact ⟨_, rfl, h.take hv ht htidy now r⟩
  | resume k => cases he
  | expire k =>
    obtain ⟨⟨c, hc, hwaits⟩, rfl⟩ := map_claimAt?_eq_some.mp he
    exact ⟨_, map_claimAt?_eq_some.mpr ⟨hclaim _ hc hwaits, rfl⟩,
      h.proceed (h.service.expire hv.prompt ht.prompt hc hwaits)⟩
  | cancel k =>
    obtain ⟨⟨c, hc, hsuspended⟩, rfl⟩ := map_claimAt?_eq_some.mp he
    have hservice := h.service.cancel hv.prompt ht.prompt hc hsuspended
    have hretains := h.onService (f := (·.cancel k)) (g := (·.cancel k)) hservice
    refine ⟨_, map_claimAt?_eq_some.mpr ⟨hclaim _ hc hsuspended, rfl⟩, hretains.node, ?_⟩
    show List.Forall₂ _ (v.calls.map _) (t.calls.map _)
    rw [List.forall₂_map_left_iff, List.forall₂_map_right_iff]
    exact h.calls.imp fun _ _ halike => halike.map fun _ => rfl
  | hold now id patience =>
    obtain rfl := Option.some.inj he
    exact ⟨_, rfl, h.onService (h.service.acquire hv.prompt ht.prompt now id patience)⟩
  | release k =>
    obtain ⟨⟨c, hc, hheld⟩, rfl⟩ := map_claimAt?_eq_some.mp he
    exact ⟨_, map_claimAt?_eq_some.mpr ⟨hclaim (· = .held) hc hheld, rfl⟩,
      h.onService (h.service.release hv.prompt ht.prompt hc (of_decide_eq_true hheld))⟩
  | pass identifiers tickets =>
    obtain rfl := Option.some.inj he
    exact ⟨_, rfl, h.onService (h.service.passOver identifiers tickets)⟩

/-- **What was left behind makes no difference to what happens next.** -/
theorem next (htidy : ¬ untidy → v.locks.Tidy) (he : t.next? e = some u) :
    ∃ w, v.next? e = some w ∧ Retains untidy w u := by
  rcases next_cases he with ⟨c, hc, rfl, rfl⟩ | ⟨hquiet, he⟩
  · obtain ⟨d, hd, hticket⟩ := h.locks.handed? hc
    obtain ⟨hclaim, hhanded⟩ := claim?_of_handed? ht.prompt.locks.sound hc
    rw [← hticket, next?_of_handed hd, hticket]
    exact ⟨_, rfl, h.proceed (h.service.resume hv.prompt ht.prompt hclaim hhanded)⟩
  · obtain ⟨w, hw, hretains⟩ := h.turn? hv ht htidy he
    exact ⟨w, next?_of_turn (hquiet.imp_left h.locks.handed?_eq_none) hw, hretains⟩

/-- The same course of events is possible at both. -/
theorem run (htidy : ¬ untidy → v.locks.Tidy) (hstay : ¬ untidy → ∀ e ∈ events, e.isCancel = false)
    (hrun : t.run? events = some u) :
    ∃ w, v.run? events = some w ∧ Retains untidy w u := by
  induction events generalizing t v with
  | nil =>
    cases hrun
    exact ⟨v, rfl, h⟩
  | cons e events ih =>
    obtain ⟨t', he, hrest⟩ := Option.bind_eq_some_iff.mp hrun
    obtain ⟨v', hv', hretains⟩ := h.next hv ht htidy he
    have htidy' : ¬ untidy → v'.locks.Tidy := fun hnone =>
      tidy_next hv (htidy hnone) hv' (hstay hnone e List.mem_cons_self)
    obtain ⟨w, hw, hend⟩ := ih hretains (hv.next hv') (ht.next he) htidy'
      (fun hnone e he => hstay hnone e (List.mem_cons_of_mem _ he)) hrest
    exact ⟨w, Option.bind_eq_some_iff.mpr ⟨v', hv', hw⟩, hend⟩

end Retains

/-! ## Without a claim -/

/-- The reception once a claim is gone, and the order that waited under its ticket. -/
def lift (a : Nat) (t : Reception) : Reception := t.onService (·.lift a)

theorem onService_lift {change : Service → Service}
    (h : change (t.service.lift a) = (change t.service).lift a) :
    (t.onService change).lift a = (t.lift a).onService change := by
  show ({ t with node := { t.node with service := (change t.service).lift a } } : Reception) =
    { t with node := { t.node with service := change (t.service.lift a) } }
  rw [h]

section Lift

variable (h : t.Proper) (hc : t.locks.claim? a = some c) (hwaits : c.stage.waits = true)
include h hc hwaits

theorem take_lift (now : Nat) (r : Request) : (t.lift a).take now r = (t.take now r).lift a := by
  have hlocks : t.locks.lift a = t.locks.without a := lift_of_waits hc hwaits
  have hservice : t.service.lift a = { t.service with
      locks := t.locks.without a
      waiting := t.service.waiting.filter (·.1 ≠ a) } := by
    rw [← hlocks]
    rfl
  have hassess : (t.lift a).node.assess now r = t.node.assess now r := by
    simp only [lift, onService, hservice]
    rfl
  have hreaction : reaction (t.lift a).node now r =
      ((reaction t.node now r).1, (reaction t.node now r).2.lift a) := by
    cases htask : t.node.assess now r with
    | error answer =>
      rw [reaction_of_error htask, reaction_of_error (hassess.trans htask)]
      rfl
    | ok task =>
      have hskip' : (t.lift a).node.skipId.service = t.node.skipId.service.lift a := rfl
      rw [reaction_of_task htask, reaction_of_task (hassess.trans htask), hskip',
        Service.start?_lift h.skipId hc hwaits now task]
  rw [take_eq h.executes, take_eq (t := t.lift a) h.executes, hreaction]
  rfl

theorem turn?_lift (he : t.turn? e = some u) (hother : e.ticket? ≠ some a)
    (hstays : e.isCancel = false) : (t.lift a).turn? e = some (u.lift a) := by
  have hne : ∀ {k}, e.ticket? = some k → k ≠ a := fun hk heq => hother (heq ▸ hk)
  have hclaim : ∀ {k d}, k ≠ a → t.locks.claim? k = some d →
      (t.lift a).locks.claim? k = some d := fun hne hd =>
    (Service.claim?_lift hc hwaits hne).trans hd
  cases e with
  | request now r =>
    obtain rfl := Option.some.inj he
    exact congrArg some (take_lift h hc hwaits now r)
  | resume k => cases he
  | expire k =>
    obtain ⟨⟨d, hd, hdwaits⟩, rfl⟩ := map_claimAt?_eq_some.mp he
    refine map_claimAt?_eq_some.mpr ⟨⟨d, hclaim (hne rfl) hd, hdwaits⟩, ?_⟩
    exact (proceed_onService (Service.expire_lift h.prompt hc hwaits hd hdwaits (hne rfl))).symm
  | cancel k => cases hstays
  | hold now id patience =>
    obtain rfl := Option.some.inj he
    exact congrArg some
      (onService_lift (Service.acquire_lift h.prompt hc hwaits now id patience)).symm
  | release k =>
    obtain ⟨⟨d, hd, hheld⟩, rfl⟩ := map_claimAt?_eq_some.mp he
    have hstage : d.stage = .held := of_decide_eq_true hheld
    refine map_claimAt?_eq_some.mpr ⟨⟨d, hclaim (hne rfl) hd, hheld⟩, ?_⟩
    exact onService_lift (Service.release_lift h.prompt hc hwaits hd hstage (hne rfl))
  | pass identifiers tickets =>
    obtain rfl := Option.some.inj he
    have hlocks : t.service.locks.lift a = t.service.locks.without a := lift_of_waits hc hwaits
    have hpass : ({ t.service.locks with fresh := t.service.locks.fresh + tickets } : LockTable).lift a =
        { t.service.locks.without a with fresh := t.service.locks.fresh + tickets } :=
      lift_of_waits hc hwaits
    refine congrArg some (onService_lift ?_).symm
    simp only [Service.passOver, Service.lift, hpass, hlocks]
    rfl

/-- Nobody is handed a lock, and nobody goes on, because a claim is lifted that waits. -/
theorem handed?_lift : (t.lift a).locks.handed? = t.locks.handed? := by
  show (t.locks.lift a).handed? = t.locks.handed?
  rw [lift_of_waits hc hwaits]
  refine find?_without fun d hd hda => ?_
  have hstage := of_decide_eq_true
    (List.find?_some (p := fun d : Claim => decide (d.stage = .handed)) hd)
  obtain ⟨hcmem, hca⟩ := mem_of_claim? hc
  obtain rfl := h.prompt.locks.sound.eq_of_ticket (List.mem_of_find?_eq_some hd) hcmem
    (hda.trans hca.symm)
  rw [hstage] at hwaits
  cases hwaits

/-- A claim that waits is not missed by what befalls others, unless somebody is dropped. -/
theorem next?_lift (he : t.next? e = some u) (hother : e.ticket? ≠ some a)
    (hstays : e.isCancel = false) : (t.lift a).next? e = some (u.lift a) := by
  have hhanded := handed?_lift h hc hwaits
  rcases next_cases he with ⟨d, hd, rfl, rfl⟩ | ⟨hquiet, he⟩
  · have hne : d.ticket ≠ a := fun heq => hother (congrArg some heq)
    obtain ⟨hclaim, hstage⟩ := claim?_of_handed? h.prompt.locks.sound hd
    rw [next?_of_handed (hhanded.trans hd)]
    exact congrArg some (proceed_onService
      (Service.resume_lift h.prompt hc hwaits hclaim hstage hne))
  · refine next?_of_turn (hquiet.imp_left hhanded.trans) ?_
    exact turn?_lift h hc hwaits he hother hstays

end Lift

theorem Proper.lift (h : t.Proper) (hc : t.locks.claim? a = some c)
    (hsuspended : c.stage.isSuspended = true) : (t.lift a).Proper := by
  refine ⟨h.executes, h.prompt.lift_suspended hc hsuspended, fun call hcall j hj => ?_⟩
  exact Nat.lt_of_lt_of_eq (h.given call hcall j hj) lift_fresh.symm

/-- Somebody is dropped, with or without a claim that has not gone on yet. -/
theorem exists_next?_lift_of_cancel (h : t.Proper) (hc : t.locks.claim? a = some c)
    (hsuspended : c.stage.isSuspended = true) (he : t.next? (.cancel k) = some u) (hne : k ≠ a) :
    ∃ w, (t.lift a).next? (.cancel k) = some w ∧ Retains untidy w (u.lift a) := by
  rcases next_cases he with ⟨_, -, heq, -⟩ | ⟨-, he⟩
  · cases heq
  · obtain ⟨⟨d, hd, hdsuspended⟩, rfl⟩ := map_claimAt?_eq_some.mp he
    obtain ⟨x, hx, -, hxsuspended⟩ := suspended_lift hc hd hne hdsuspended
    refine ⟨_, next?_of_turn (Or.inr rfl)
      (map_claimAt?_eq_some.mpr ⟨⟨x, hx, hxsuspended⟩, rfl⟩), ⟨_, rfl, ?_⟩, ?_⟩
    · exact Service.cancel_lift h.prompt hc hsuspended hd hdsuspended hne.symm
    · exact List.forall₂_same.mpr fun call _ => .refl call

/-- **A claim that has not gone on is not missed by what befalls others**, but for what is left behind by
one who is dropped. -/
theorem exists_next?_lift (h : t.Proper) (hc : t.locks.claim? a = some c)
    (hsuspended : c.stage.isSuspended = true) (he : t.next? e = some u)
    (hother : e.ticket? ≠ some a) :
    ∃ w, (t.lift a).next? e = some w ∧ Retains untidy w (u.lift a) := by
  cases hcancel : e.isCancel with
  | true =>
    cases e with
    | cancel k => exact exists_next?_lift_of_cancel h hc hsuspended he fun heq => hother (congrArg some heq)
    | _ => cases hcancel
  | false =>
    -- Whoever has been handed a lock goes on first, and that is not the claim.
    have hwaits : c.stage.waits = true := by
      obtain ⟨hcmem, hca⟩ := mem_of_claim? hc
      rcases next_cases he with ⟨d, hd, rfl, -⟩ | ⟨hquiet, -⟩
      · obtain ⟨hclaim, hhanded⟩ := claim?_of_handed? h.prompt.locks.sound hd
        exact h.prompt.locks.waits_of_handed hclaim hhanded hc hsuspended
          fun heq => hother (congrArg some heq.symm)
      · have hquiet := hquiet.resolve_right (by simp [hcancel])
        exact (Stage.waits_or_handed hsuspended).resolve_right (ne_handed_of_none hquiet hcmem)
    exact ⟨_, next?_lift h hc hwaits he hother hcancel, .refl _⟩

end InletRegistry.Reception
