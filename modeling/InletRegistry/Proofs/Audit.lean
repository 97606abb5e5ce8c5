import InletRegistry.Audit
import InletRegistry.Proofs.Json.Plain
import InletRegistry.Proofs.Json.RoundTrip
import InletRegistry.Proofs.Text.Pieces

/-!
# The audit trail is read back

A record is written as an object in which the event's fields stand beside the record's, and is read as the
record that it was (`Record.parse?_line`), whatever its texts are made of. What is written for it has no
control character in it, so a file whose last line has ended gains one line with every entry, and the
records of the lines before are what they were (`records?_append`).
-/

namespace InletRegistry.Audit

open InletRegistry.Text InletRegistry.Time InletRegistry.Json

variable {e : Entry} {r : Record} {file : List UInt8} {nanoseconds : Int}

/-! ## Records -/

/-- The version that an event tells. -/
def Event.version? : Event → Option Nat
  | resourceUpdated _ _ version => version
  | resourceDeleted .. | authorizationDenied .. => none

/-- Whether a record is of a time that the calendar reaches, and a version in it is one of 64 bits. -/
structure Record.Fits (r : Record) : Prop where
  time : Instant.first ≤ r.time.milliseconds ∧ r.time.milliseconds ≤ Instant.last
  version : ∀ n ∈ r.entry.event.version?, n ≤ Decimal.word64

theorem integer_of_neg {n : Int} (h : n < 0) : integer n = .number (.negative n.natAbs) := if_pos h

theorem integer_of_nonneg {n : Int} (h : 0 ≤ n) : integer n = .natural n.natAbs := if_neg (Int.not_lt.mpr h)

/-- A time of the calendar is written as an integer of 64 bits. -/
theorem isLegible_integer {n : Int} (hfirst : Instant.first ≤ n) (hlast : n ≤ Instant.last) :
    (integer n).IsLegible := by
  unfold Instant.first at hfirst
  unfold Instant.last at hlast
  have hlimit : 8334601228800000 ≤ Nat.pow 2 63 ∧ 8210266876799999 ≤ Decimal.word64 := by decide
  by_cases hneg : n < 0
  · rw [integer_of_neg hneg]
    exact Number.isLegible_negative (by omega) (Nat.le_trans (by omega) hlimit.1)
  · rw [integer_of_nonneg (Int.not_lt.mp hneg)]
    exact Number.isLegible_natural (Nat.le_trans (by omega) hlimit.2)

theorem instant?_integer {n : Int} (hfirst : Instant.first ≤ n) (hlast : n ≤ Instant.last) :
    instant? (Source.ofJson (integer n)) = some ⟨n⟩ := by
  have hread : Instant.ofMilliseconds? n = some ⟨n⟩ := if_pos ⟨hfirst, hlast⟩
  by_cases hneg : n < 0
  · rw [integer_of_neg hneg]
    have hsame : -(n.natAbs : Int) = n := by omega
    show Instant.ofMilliseconds? (-(n.natAbs : Int)) = _
    rw [hsame, hread]
  · rw [integer_of_nonneg (Int.not_lt.mp hneg)]
    have hsame : (n.natAbs : Int) = n := by omega
    show Instant.ofMilliseconds? (n.natAbs : Int) = _
    rw [hsame, hread]

namespace Record

theorem isLegible_toJson (h : r.Fits) : r.toJson.IsLegible := by
  obtain ⟨⟨n⟩, principal, event⟩ := r
  have htime := isLegible_integer h.time.1 h.time.2
  cases event with
  | resourceUpdated kind id version =>
    have hversion : (Json.ofNatural? version).IsLegible := isLegible_ofNatural? h.version
    exact ⟨htime, trivial, trivial, trivial, trivial, hversion, trivial⟩
  | resourceDeleted kind id unconditional =>
    exact ⟨htime, trivial, trivial, trivial, trivial, trivial, trivial⟩
  | authorizationDenied id reason => exact ⟨htime, trivial, trivial, trivial, trivial, trivial⟩

/-- The event of a record is read off the fields beside the record's. -/
theorem event_ofSource? (h : r.Fits) :
    Event.ofSource? (Source.ofJson r.toJson) = some r.entry.event := by
  obtain ⟨⟨n⟩, principal, event⟩ := r
  cases event with
  | resourceUpdated kind id version =>
    have hversion : Document.optional (Source.toNatural? Decimal.word64)
        (some (Source.ofJson (Json.ofNatural? version))) = some version :=
      Source.optional_ofNatural? h.version
    have hfields : (Source.ofJson (toJson ⟨⟨n⟩, principal, .resourceUpdated kind id version⟩)).fields?
        ["kind", "resource_id", "version"] 3 =
          some [some (.text (some kind)), some (.text (some id)),
            some (Source.ofJson (Json.ofNatural? version))] := rfl
    show event? (Source.ofJson (toJson ⟨⟨n⟩, principal, .resourceUpdated kind id version⟩)) .updated = _
    simp only [event?, hfields, hversion]
    rfl
  | resourceDeleted kind id unconditional => rfl
  | authorizationDenied id reason => rfl

/-- What stands beside the time and the principal is small enough to be kept. -/
theorem isKeepable_ofJson (r : Record) :
    ∃ fields, Source.ofJson r.toJson = .object fields ∧ isKeepable fields = true := by
  obtain ⟨⟨n⟩, principal, event⟩ := r
  cases event with
  | resourceUpdated kind id version =>
    cases version with
    | none => exact ⟨_, rfl, rfl⟩
    | some v => exact ⟨_, rfl, rfl⟩
  | resourceDeleted kind id unconditional => exact ⟨_, rfl, rfl⟩
  | authorizationDenied id reason => exact ⟨_, rfl, rfl⟩

theorem ofSource?_toJson (h : r.Fits) : ofSource? (Source.ofJson r.toJson) = some r := by
  obtain ⟨fields, hobject, hkeepable⟩ := isKeepable_ofJson r
  have hfields : (Source.ofJson r.toJson).fields? ["at", "principal"] 2 =
      some [some (Source.ofJson (integer r.time.milliseconds)), some (.text (some r.entry.principal))] := by
    obtain ⟨⟨n⟩, principal, event⟩ := r
    cases event <;> rfl
  have htime : Document.required instant? (some (Source.ofJson (integer r.time.milliseconds))) =
      some r.time := instant?_integer h.time.1 h.time.2
  have hevent := event_ofSource? h
  rw [hobject] at hfields hevent ⊢
  simp only [ofSource?, hkeepable, ↓reduceIte, hfields, htime, hevent]
  rfl

/-- **A record is read from its line.** -/
theorem parse?_line (h : r.Fits) : parse? r.line = some r := by
  rw [parse?, line, Source.readText?_print (isLegible_toJson h), Option.bind_some, ofSource?_toJson h]

theorem not_mem_line {c : Char} (hcontrol : c.toNat < 0x20) : c ∉ r.line.toList := not_mem_print hcontrol

end Record

/-- The time of a record is the millisecond that a count of nanoseconds falls into. -/
theorem ofNanoseconds_bounds (n : Int) :
    (Instant.ofNanoseconds n).milliseconds * 1000000 ≤ n ∧
      n < ((Instant.ofNanoseconds n).milliseconds + 1) * 1000000 := by
  simp only [Instant.ofNanoseconds, Int.fdiv_eq_ediv_of_nonneg n (by decide : (0 : Int) ≤ 1000000)]
  omega

/-! ## The file -/

/-- Whether the last line of a file, if it has any, has ended. -/
def HasEnded (file : List UInt8) : Prop := file = [] ∨ ∃ front, file = front ++ [0x0A]

namespace HasEnded

theorem append (file : List UInt8) (nanoseconds : Int) (e : Entry) :
    HasEnded (append file nanoseconds e) := by
  refine .inr ⟨file ++ Utf8.encode (Record.line ⟨.ofNanoseconds nanoseconds, e⟩), ?_⟩
  have hfeed : Utf8.encodeList ['\n'] = [0x0A] := rfl
  simp only [Audit.append, Entry.writtenAt, Utf8.encode, String.toList_append]
  rw [List.append_assoc, ← hfeed]
  exact congrArg (file ++ ·) List.flatMap_append

/-- A text behind a file that has ended is read behind the text of the file. -/
theorem strict?_append (h : HasEnded file) (cs : List Char) :
    Utf8.strict? (file ++ Utf8.encodeList cs) = (Utf8.strict? file).map (· ++ cs) := by
  rcases h with rfl | ⟨front, rfl⟩
  · exact Utf8.strict?_eq_some_iff.mpr (Utf8.marked_encodeList cs)
  · rw [List.append_assoc]
    exact Utf8.strict?_append_encodeList (by decide) front cs

/-- The lines of a text behind a file that has ended are lines of their own. -/
theorem lines_append {before : List Char} (h : HasEnded file) (hbefore : Utf8.strict? file = some before)
    (cs : List Char) : lines (before ++ cs) = lines before ++ lines cs := by
  have hmarked := Utf8.strict?_eq_some_iff.mp hbefore
  rcases h with rfl | ⟨front, rfl⟩
  · rw [List.map_eq_nil_iff.mp hmarked.symm]
    rfl
  · rw [Utf8.marked_append (by decide)] at hmarked
    obtain ⟨text, feed, rfl, -, hfeed⟩ := List.map_eq_append_iff.mp hmarked.symm
    obtain ⟨c, more, rfl, hc, hmore⟩ := List.map_eq_cons_iff.mp hfeed
    rw [List.map_eq_nil_iff.mp hmore, Option.some.inj hc, List.append_assoc]
    exact Text.lines_append text cs

end HasEnded

/-- What is written for an entry is a line of its own. -/
theorem lines_writtenAt :
    lines (e.writtenAt nanoseconds).toList = [(Record.line ⟨.ofNanoseconds nanoseconds, e⟩).toList] := by
  rw [Entry.writtenAt, String.toList_append]
  exact lines_singleton (Record.not_mem_line (by decide)) (Record.not_mem_line (by decide))

/-- **An entry that is written behind a file is read behind the records of the file.** -/
theorem records?_append (h : HasEnded file) (hfits : Record.Fits ⟨.ofNanoseconds nanoseconds, e⟩) :
    records? (append file nanoseconds e) =
      (records? file).map (· ++ [⟨.ofNanoseconds nanoseconds, e⟩]) := by
  unfold records? append Utf8.encode
  rw [h.strict?_append]
  cases hbefore : Utf8.strict? file with
  | none => rfl
  | some before =>
    rw [Option.map_some, Option.bind_some, Option.bind_some, h.lines_append hbefore, lines_writtenAt,
      List.mapM_append, List.mapM_cons, List.mapM_nil, String.ofList_toList, Record.parse?_line hfits]
    exact Option.map_eq_bind.symm

/-- A file behind which entries are written one after the other. -/
theorem records?_foldl (h : HasEnded file) {entries : List (Int × Entry)}
    (hfits : ∀ x ∈ entries, Record.Fits ⟨.ofNanoseconds x.1, x.2⟩) :
    records? (entries.foldl (fun file x => append file x.1 x.2) file) =
      (records? file).map (· ++ entries.map fun x => ⟨.ofNanoseconds x.1, x.2⟩) := by
  induction entries generalizing file with
  | nil =>
    simp only [List.foldl_nil, List.map_nil, List.append_nil]
    exact Option.map_id'.symm
  | cons x entries ih =>
    obtain ⟨hx, hentries⟩ := List.forall_mem_cons.mp hfits
    rw [List.foldl_cons, ih (.append file x.1 x.2) hentries, records?_append h hx, Option.map_map]
    simp only [Function.comp_def, List.append_assoc, List.map_cons, List.singleton_append]

/-- **What is written to the trail is read back.** Whatever the texts of an entry are made of, it is written
as one line, and that line is read as the entry at the millisecond in which it was written. So behind a file
whose last line has ended, entries that are written one after the other are read behind the records of the
file, each once and in their order. -/
theorem trail_reads_back :
    (∀ (e : Entry) (nanoseconds : Int), Record.Fits ⟨.ofNanoseconds nanoseconds, e⟩ →
      ∃ line, e.writtenAt nanoseconds = line ++ "\n" ∧ '\n' ∉ line.toList ∧
        ∃ t, Record.parse? line = some ⟨t, e⟩ ∧ t.milliseconds * 1000000 ≤ nanoseconds ∧
          nanoseconds < (t.milliseconds + 1) * 1000000) ∧
    ∀ (file : List UInt8) (before : List Record) (entries : List (Int × Entry)), HasEnded file →
      records? file = some before → (∀ x ∈ entries, Record.Fits ⟨.ofNanoseconds x.1, x.2⟩) →
      records? (entries.foldl (fun file x => append file x.1 x.2) file) =
        some (before ++ entries.map fun x => ⟨.ofNanoseconds x.1, x.2⟩) := by
  refine ⟨fun e nanoseconds hfits => ?_, fun file before entries hended hbefore hfits => ?_⟩
  · exact ⟨_, rfl, Record.not_mem_line (by decide), _, Record.parse?_line hfits,
      ofNanoseconds_bounds nanoseconds⟩
  · rw [records?_foldl hended hfits, hbefore, Option.map_some]

/-- A principal and ids with quotes, line breaks and what looks like a record of its own in them, the
greatest version and none; half a millisecond before 1970 and a moment after. -/
theorem trail_reads_back_awkward :
    records?
        ([(-500000, ⟨"ada\"\n\x01", .resourceUpdated "port" "/a\r\n\x7b\x7d" (some Decimal.word64)⟩),
          (1999999, ⟨"*", .resourceUpdated "" "\\" none⟩),
          (1999999, ⟨"ada", .authorizationDenied "/b" "\"\x7d\n\x7b\"at\":0\x7d"⟩)].foldl
          (fun file x => append file x.1 x.2) []) =
      some
        [⟨⟨-1⟩, "ada\"\n\x01", .resourceUpdated "port" "/a\r\n\x7b\x7d" (some Decimal.word64)⟩,
          ⟨⟨1⟩, "*", .resourceUpdated "" "\\" none⟩,
          ⟨⟨1⟩, "ada", .authorizationDenied "/b" "\"\x7d\n\x7b\"at\":0\x7d"⟩] := by
  refine trail_reads_back.2 [] [] _ (.inl rfl) rfl ?_
  simp only [List.forall_mem_cons]
  exact ⟨⟨by decide, by decide⟩, ⟨by decide, by decide⟩, ⟨by decide, by decide⟩, List.forall_mem_nil _⟩

end InletRegistry.Audit
