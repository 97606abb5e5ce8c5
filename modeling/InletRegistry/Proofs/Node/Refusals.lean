import InletRegistry.Proofs.Json.RoundTrip
import InletRegistry.Proofs.Node.Answers

/-!
# Which refusals say what failed

A failure is told as a JSON object: a text that says what failed, and the status. A refusal has that form
exactly if the caller could not be told or the request was heard, and if there is a body to tell it in.
What is not served has no body at all, and what cannot be read is turned down in plain words, which no
reader of JSON gets past the first letter of.
-/

namespace InletRegistry

open InletRegistry.Text InletRegistry.Http InletRegistry.Routing InletRegistry.Registry InletRegistry.Json

variable {σ : Type}

/-! ## What is no JSON -/

/-- A text that begins with a character with which no value begins is no JSON. -/
theorem Json.Source.read?_eq_none {s : String} {c : Char} (h : s.toList.head? = some c)
    (hc : Scanner.begin? [] c = none) : Source.read? (Utf8.encode s) = none := by
  obtain ⟨cs, hcs⟩ := List.head?_eq_some_iff.mp h
  have htake : Scanner.start.take? (some c) = none := hc
  rw [Source.read?, Utf8.encode, Utf8.marked_encodeList, hcs, List.map_cons, Source.ofSymbols?,
    Token.scan?, Scanner.run?, htake]
  rfl

theorem Json.Source.read?_nil : Source.read? [] = none := rfl

namespace Http

/-- A response says what failed: an object with a text and the status. -/
def Response.SaysFailure (r : Response) : Prop :=
  ∃ fields message, Source.read? r.body = some (.object fields) ∧
    (some "error", .text (some message)) ∈ fields ∧
    (some "status", .number (some (.natural r.status))) ∈ fields

/-- A response whose body is no JSON says nothing. -/
theorem Response.not_saysFailure {r : Response} (h : Source.read? r.body = none) : ¬ r.SaysFailure := by
  rintro ⟨fields, message, hread, -⟩
  cases h.symm.trans hread

/-- A rejection is told in plain words. -/
theorem Rejection.read?_body (e : Rejection) : Source.read? e.response.body = none := by
  cases e with
  | undecodableId => exact Source.read?_eq_none (c := 'I') (by decide) rfl
  | longBody => exact Source.read?_eq_none (c := 'F') (by decide) rfl
  | repeatedField name =>
    refine Source.read?_eq_none (c := 'F') ?_ rfl
    rw [String.toList_append, String.toList_append, List.append_assoc, List.head?_append]
    rfl

end Http

/-- The status of a failure is a number as it stands in HTTP. -/
theorem Failure.status_le (f : Failure) : f.status ≤ Decimal.word64 := by
  cases f <;> simp [status, Decimal.word64]

/-- A body that tells a failure is read as what it tells. -/
theorem Failure.read?_body (f : Failure) :
    Source.read? f.body.octets = some (.object [(some "error", .text (some f.message)),
      (some "status", .number (some (.natural f.status)))]) := by
  have hlegible : f.body.IsLegible :=
    ⟨trivial, Number.isLegible_natural f.status_le, trivial⟩
  exact Source.read?_octets hlegible

theorem Failure.saysFailure {f : Failure} {r : Response} (hbody : r.body = f.body.octets)
    (hstatus : r.status = f.status) : r.SaysFailure :=
  ⟨_, f.message, (congrArg Source.read? hbody).trans f.read?_body, List.mem_cons_self,
    List.mem_cons_of_mem _ (by rw [hstatus]; exact List.mem_cons_self)⟩

namespace Node

variable {n : Node} {r : Request} {now : Nat} {answer : Response}

/-- What a node says itself of a request that it refuses tells a failure, if it heard the request or could
not tell the caller, and else is no JSON. -/
theorem Says.refusal (h : n.Says now r answer) (hrefused : 400 ≤ answer.status) :
    (((∃ f, n.callerOf now r = .error f) ∨ n.Hears now r) ∧
      ∃ f : Failure, answer.body = f.body.octets ∧ answer.status = f.status) ∨
    (¬ ((∃ f, n.callerOf now r = .error f) ∨ n.Hears now r) ∧ Source.read? answer.body = none) := by
  have htold : ∀ {caller}, n.callerOf now r = .ok caller → ¬ n.Hears now r →
      ¬ ((∃ f, n.callerOf now r = .error f) ∨ n.Hears now r) := by
    rintro caller hcaller hunheard (⟨f, hf⟩ | hhears)
    · cases hcaller.symm.trans hf
    · exact hunheard hhears
  rcases h with ⟨hhears, m, outcome, -, rfl⟩ | ⟨hunheard, haside⟩
  · cases outcome with
    | ok v =>
      have hstatus : (m.respond (.ok v)).status = 200 := sign_status m _
      omega
    | error f => exact Or.inl ⟨Or.inr hhears, f, sign_body m _, sign_status m _⟩
  · cases haside with
    | untold hcaller => exact Or.inl ⟨Or.inl ⟨_, hcaller⟩, _, rfl, rfl⟩
    | unserved hcaller status => exact Or.inr ⟨htold hcaller hunheard, Source.read?_nil⟩
    | shown hcaller value =>
      have hstatus : (Response.json 200 value).status = 200 := rfl
      omega
    | illegible hcaller e => exact Or.inr ⟨htold hcaller hunheard, e.read?_body⟩

/-- **A refusal says what failed if the caller could not be told or the request was heard.** Whatever a
node is asked, in whatever state and whatever goes on while the request waits: a response of its own with
a status of 400 or above is an object with a text that says what failed and with that status exactly if
the request is not for the head alone, and either its caller could not be told or it was heard. -/
theorem refusals_say_what_failed {meanwhile : Meanwhile} (hname : meanwhile.KeepsName)
    (transport : Transport σ) (now : Nat) (r : Request) (n : Node) (s : σ)
    (hown : ∀ answer, ¬ n.Relays meanwhile transport now r s answer)
    (hrefused : 400 ≤ (n.attend meanwhile (noting transport) now r ([], s)).1.status) :
    (n.attend meanwhile (noting transport) now r ([], s)).1.SaysFailure ↔
      r.method ≠ "HEAD" ∧ ((∃ f, n.callerOf now r = .error f) ∨ n.Hears now r) := by
  obtain ⟨answer, hspoken, hresponse⟩ : ∃ answer, n.Says now r answer ∧
      (n.attend meanwhile (noting transport) now r ([], s)).1 = (n.visitOf r).conclude answer := by
    rcases attend_cases hname transport now r n s with ⟨answer, hrelays, -⟩ | ⟨-, hspoken⟩
    · exact absurd hrelays (hown answer)
    · exact hspoken
  rw [hresponse, Visit.conclude_status] at hrefused
  have hbody : ((n.visitOf r).conclude answer).body = if r.method = "HEAD" then [] else answer.body :=
    Visit.conclude_body _ _
  rw [hresponse]
  by_cases hhead : r.method = "HEAD"
  · rw [if_pos hhead] at hbody
    have hmute := Response.not_saysFailure ((congrArg Source.read? hbody).trans Source.read?_nil)
    exact ⟨fun hfailure => absurd hfailure hmute, fun h => absurd hhead h.1⟩
  · rw [if_neg hhead] at hbody
    rcases hspoken.refusal hrefused with ⟨hheard, f, hf, hstatus⟩ | ⟨hunheard, hnone⟩
    · refine ⟨fun _ => ⟨hhead, hheard⟩, fun _ => Failure.saysFailure (hbody.trans hf) ?_⟩
      rw [Visit.conclude_status, hstatus]
    · have hmute := Response.not_saysFailure ((congrArg Source.read? hbody).trans hnone)
      exact ⟨fun hfailure => absurd hfailure hmute, fun h => absurd h.2 hunheard⟩

/-- A request to remove an inlet that gives the version twice. -/
def repeated : Request := ⟨"DELETE", ⟨"/input-ports/p1", some "version=1&version=1"⟩, [], []⟩

/-- A request to remove an inlet in a version that it has not. -/
def outdated : Request := ⟨"DELETE", ⟨"/input-ports/p1", some "version=1"⟩, [], []⟩

/-- Why an outdated removal is refused is said; why the repeated version is, only in plain words. -/
theorem refusals_say_what_failed_repeated :
    let answer := fun (r : Request) =>
      ((member .coordinator).attend .idle (noting (isolated Unit)) 0 r ([], ())).1
    (answer outdated).status = 409 ∧ (answer outdated).SaysFailure ∧
      (answer repeated).status = 400 ∧ ¬ (answer repeated).SaysFailure := by
  intro answer
  have houtdated : (answer outdated).status = 409 := by decide +kernel
  have hrepeated : (answer repeated).status = 400 := by decide +kernel
  have hhears : (member .coordinator).Hears 0 outdated :=
    ⟨"anonymous", "p1".toList, by decide, by decide, by decide,
      ⟨"p1", by decide⟩, by decide, fun _ => ⟨⟨some "1", none⟩, by decide +kernel⟩⟩
  have htold : (member .coordinator).callerOf 0 repeated = .ok "anonymous" := by decide
  have hunheard : ¬ (member .coordinator).Hears 0 repeated := by
    rintro ⟨_, _, -, -, -, hlegible⟩
    obtain ⟨q, hq⟩ := hlegible.query (by decide)
    have hparse : RemovalQuery.parse (repeated.target.query.getD "") =
        .error (.repeatedField "version") := by decide +kernel
    cases hparse.symm.trans hq
  have hsaid := refusals_say_what_failed Meanwhile.keepsName_idle (isolated Unit) 0 outdated
    (member .coordinator) () (fun _ => not_relays (by decide +kernel)) (by rw [houtdated]; decide)
  have hunsaid := refusals_say_what_failed Meanwhile.keepsName_idle (isolated Unit) 0 repeated
    (member .coordinator) () (fun _ => not_relays (by decide +kernel)) (by rw [hrepeated])
  refine ⟨houtdated, hsaid.mpr ⟨by decide, Or.inr hhears⟩, hrepeated, fun hfailure => ?_⟩
  rcases (hunsaid.mp hfailure).2 with ⟨f, hf⟩ | hhears
  · cases htold.symm.trans hf
  · exact hunheard hhears

/-- It is not so that every refusal of a request for an inlet says what failed. -/
theorem not_every_refusal_says_what_failed :
    ¬ ∀ (n : Node) (meanwhile : Meanwhile) (now : Nat) (r : Request) (segment : List Char),
      Route.ofPath? r.target.path = some (.inlet segment) → meanwhile.KeepsName →
      (∀ answer, ¬ n.Relays meanwhile (isolated Unit) now r () answer) →
      400 ≤ (n.attend meanwhile (isolated Unit) now r ()).1.status →
      (n.attend meanwhile (isolated Unit) now r ()).1.SaysFailure := by
  intro h
  have hsaid := h (member .coordinator) .idle 0 repeated "p1".toList (by decide)
    Meanwhile.keepsName_idle (fun _ => not_relays (by decide +kernel)) (by decide +kernel)
  have hbody : ((member .coordinator).attend .idle (isolated Unit) 0 repeated ()).1.body =
      (Rejection.repeatedField "version").response.body := by decide +kernel
  exact Response.not_saysFailure ((congrArg Source.read? hbody).trans (Rejection.read?_body _)) hsaid

end Node

end InletRegistry
