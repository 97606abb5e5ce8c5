import InletRegistry.Proofs.Access.Authentication
import InletRegistry.Proofs.Node.Location

/-!
# Nobody gets past the gate unless admitted

Whatever a request asks for, a node that checks tokens looks first at who sends it. What comes after,
the choice of a route, the reading of the request, the way to the coordinator and the operation itself,
is `process`, and it is done for one caller: the one as whom the sender is admitted. A request whose
sender is not admitted gets no further; it is answered as unauthenticated, whatever it asks for, and
nothing has changed but the number of the next identifier.
-/

namespace InletRegistry.Node

open InletRegistry.Http InletRegistry.Routing InletRegistry.Access

variable {σ : Type} {n : Node} {r : Request} {now : Nat} {secret caller : String}

/-- What becomes of a request from behind the gate on, for a caller. -/
def process (transport : Transport σ) (now : Nat) (caller : String) (r : Request) (n : Node) (s : σ) :
    Visit × Progress × Node × σ :=
  let visit := n.visitOf r
  match n.skipId.visitRoute transport now caller (r.identified (n.requestIdOf r)) s with
  | (.answered response, n, s) => (visit, .answered (visit.conclude response), n, s)
  | (.waiting ticket, n, s) => (visit, .waiting ticket, n, s)

/-- To receive a request is to tell its caller first and then to process it. -/
theorem receive_eq_process (transport : Transport σ) (s : σ) :
    n.receive transport now r s =
      match n.callerOf now r with
      | .error f => (n.visitOf r, .answered ((n.visitOf r).conclude (.ofFailure f)), n.skipId, s)
      | .ok caller => n.process transport now caller r s := by
  rw [← callerOf_identified (n.requestIdOf r)]
  rfl

/-- A request that is processed for a caller gets its answer at once, or it comes to a task of this
caller, which the node undertakes. -/
theorem process_cases (transport : Transport σ) (now : Nat) (caller : String) (r : Request) (n : Node)
    (s : σ) :
    (∃ answer, n.process transport now caller r s = (n.visitOf r, .answered answer, n.skipId, s)) ∨
      ∃ task : Registry.Task, task.caller = caller ∧ n.process transport now caller r s =
        match n.skipId.undertake transport now task (r.identified (n.requestIdOf r)) s with
        | (.answered answer, n', s') => (n.visitOf r, .answered ((n.visitOf r).conclude answer), n', s')
        | (.waiting ticket, n', s') => (n.visitOf r, .waiting ticket, n', s') := by
  unfold process
  rcases n.skipId.visitRoute_cases transport now caller (r.identified (n.requestIdOf r)) s with
    ⟨answer, hanswer⟩ | ⟨task, hcaller, htask⟩
  · rw [hanswer]
    exact .inl ⟨_, rfl⟩
  · rw [htask]
    exact .inr ⟨task, hcaller, rfl⟩

/-- Whom a node with a secret takes the sender of a request for. -/
def AdmitsAs (n : Node) (secret : String) (now : Nat) (r : Request) (caller : String) : Prop :=
  Admits n.auth secret (now / 1000) r.target.path (r.headers.first? "authorization") caller

theorem callerOf_eq_ok_iff (hon : n.auth.enabled = true) (hsecret : n.auth.jwtSecret = some secret) :
    n.callerOf now r = .ok caller ↔ n.AdmitsAs secret now r caller :=
  Access.callerOf_eq_ok_iff hon hsecret

/-- Who cannot be told is not authenticated, at a node that has a secret. -/
theorem callerOf_unauthenticated (hsecret : n.auth.jwtSecret = some secret) {f : Failure}
    (h : n.callerOf now r = .error f) : f.status = 401 := by
  rcases callerOf_status h with hstatus | ⟨-, hcannot⟩
  · exact hstatus
  · refine absurd (fun _ hnone => ?_) hcannot
    rw [hsecret] at hnone
    cases hnone

/-- **Nobody gets past the gate unless admitted.** A node checks tokens and has a secret. Then at most
one caller is admitted for a request, and if one is, the request is processed for this caller, and a
task that it comes to is this caller's. If none is, it is answered as unauthenticated: the network has
not been asked for anything, and the inlets, the locks and the audit trail are what they were. A path
is public exactly if the segments of some public path begin its own. -/
theorem processed_for_the_admitted (hon : n.auth.enabled = true)
    (hsecret : n.auth.jwtSecret = some secret) (transport : Transport σ) (now : Nat) (r : Request)
    (s : σ) :
    let seen := n.receive (noting transport) now r ([], s)
    (∀ caller, n.AdmitsAs secret now r caller →
      seen = n.process (noting transport) now caller r ([], s) ∧
        (∀ task, n.assess now r = .ok task → task.caller = caller) ∧
        ∀ other, n.AdmitsAs secret now r other → other = caller) ∧
    ((∀ caller, ¬ n.AdmitsAs secret now r caller) →
      ∃ answer m, seen = (n.visitOf r, .answered answer, m, [], s) ∧ answer.status = 401 ∧
        m.holdings = n.holdings) ∧
    (n.auth.isPublic r.target.path = true ↔
      ∃ p ∈ n.auth.publicPaths, Text.segments p.toList <+: Text.segments r.target.path.toList) := by
  intro seen
  refine ⟨fun caller hadmitted => ⟨?_, fun task htask => ?_, fun other hother => ?_⟩,
    fun hnobody => ?_, AuthSettings.isPublic_iff⟩
  · show n.receive (noting transport) now r ([], s) = _
    rw [receive_eq_process, (callerOf_eq_ok_iff hon hsecret).mpr hadmitted]
  · exact caller_of_assess ((callerOf_eq_ok_iff hon hsecret).mpr hadmitted) htask
  · have hcaller := (callerOf_eq_ok_iff hon hsecret).mpr hadmitted
    rw [(callerOf_eq_ok_iff hon hsecret).mpr hother] at hcaller
    exact Except.ok.inj hcaller
  · cases hcaller : n.callerOf now r with
    | ok caller => exact absurd ((callerOf_eq_ok_iff hon hsecret).mp hcaller) (hnobody caller)
    | error f =>
      refine ⟨(n.visitOf r).conclude (.ofFailure f), n.skipId, ?_, ?_, rfl⟩
      · show n.receive (noting transport) now r ([], s) = _
        rw [receive_eq_process, hcaller]
      · rw [Visit.conclude_status]
        exact callerOf_unauthenticated hsecret hcaller

/-- A follower that checks tokens; one path is public. -/
def guarded : Node :=
  ofConfig { Config.default with
    cluster := ⟨true, .follower, some "http://coordinator", 10000⟩
    auth := ⟨true, some "s", "anonymous", ["/health"]⟩ } 0

/-- A request for an inlet with a token of `alice`, which expires after a minute. -/
def badged : Request :=
  ⟨"GET", ⟨"/input-ports/p1", none⟩, [("authorization", headerValue ("bEARER  " ++
    "eyJhbGciOiJIUzI1NiJ9.eyJzdWIiOiJhbGljZSIsImV4cCI6NjAsImlhdCI6MH0." ++
    "Vw_fhRp1weOwHGKd0Etx9JHhifZEYLA8MdxpIfZqh8A"))], []⟩

/-- A request without a token for a path that only looks like the public one. -/
def stray : Request := ⟨"GET", ⟨"/healthz", none⟩, [], []⟩

/-- With the token the request is processed for `alice`; without one nobody is admitted to a path that
goes on within the segment where the public one ends. -/
theorem processed_for_the_admitted_badged :
    guarded.AdmitsAs "s" 0 badged "alice" ∧
      guarded.receive (noting (isolated Unit)) 0 badged ([], ()) =
        guarded.process (noting (isolated Unit)) 0 "alice" badged ([], ()) ∧
      (∀ caller, ¬ guarded.AdmitsAs "s" 0 stray caller) ∧
      ∃ answer m, guarded.receive (noting (isolated Unit)) 0 stray ([], ()) =
          (guarded.visitOf stray, .answered answer, m, [], ()) ∧
        answer.status = 401 ∧ m.holdings = guarded.holdings := by
  have hon : guarded.auth.enabled = true := rfl
  have hsecret : guarded.auth.jwtSecret = some "s" := rfl
  have htold : guarded.callerOf 0 badged = .ok "alice" := by decide +kernel
  have hadmitted : guarded.AdmitsAs "s" 0 badged "alice" :=
    (callerOf_eq_ok_iff hon hsecret).mp htold
  have huntold : guarded.callerOf 0 stray =
      .error (.unauthenticated "provide an Authorization header with 'Bearer <token>'") := by
    decide +kernel
  have hnobody : ∀ caller, ¬ guarded.AdmitsAs "s" 0 stray caller := by
    intro caller hcaller
    rw [← callerOf_eq_ok_iff hon hsecret, huntold] at hcaller
    cases hcaller
  exact ⟨hadmitted,
    ((processed_for_the_admitted hon hsecret (isolated Unit) 0 badged ()).1 "alice" hadmitted).1,
    hnobody,
    (processed_for_the_admitted hon hsecret (isolated Unit) 0 stray ()).2.1 hnobody⟩

end InletRegistry.Node
