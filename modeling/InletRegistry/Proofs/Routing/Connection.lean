import InletRegistry.Proofs.Routing.Hop

/-!
# What belongs to a connection

HTTP scopes some fields to a connection by their names, and the sender of a message may scope more of
them: it lists their names in the message's own field `connection`. A hop should copy none of these. It
does not read that field, though. It leaves out what its own list of names has, which is not all of the
names that HTTP has, so it copies a keepalive, a proxy's challenge, and whatever else a message lists
(`connection_left_behind_iff`).
-/

namespace InletRegistry

open InletRegistry.Text

namespace Http

/-- The fields that HTTP scopes to a connection. -/
def connectionFields : List String :=
  ["connection", "keep-alive", "te", "trailer", "transfer-encoding", "upgrade", "proxy-authorization",
    "proxy-authenticate"]

/-- The names in a list of names: between commas, without the blanks around them, and in lower case.
Where there is nothing between commas, there is no name. -/
def listedNames (value : List UInt8) : List String :=
  (((value.splitOn 0x2C).map Head.trimmed).filter (· ≠ [])).map fun octets =>
    nameRead (String.ofList (octets.map fun b => Char.ofNat b.toNat))

namespace Headers

variable {fields crossed : Headers} {dropped : List String} {name : String} {value : List UInt8}

/-- The names that a message scopes to its connection itself, in any number of lists. -/
def nominated (fields : Headers) : List String := (fields.valuesOf "connection").flatMap listedNames

/-- That the fields of a name belong to the connection over which a message came. -/
abbrev OfConnection (fields : Headers) (name : String) : Prop :=
  nameRead name ∈ connectionFields ++ fields.nominated

/-- That nothing of a connection has crossed over to the other side. -/
def LeavesConnection (fields crossed : Headers) : Prop :=
  ∀ name, fields.OfConnection name → crossed.valuesOf name = []

/-- That what has crossed is all but some fields. -/
def CrossesBut (fields crossed : Headers) (dropped : List String) : Prop :=
  ∀ name, crossed.valuesOf name = if nameRead name ∈ dropped then [] else fields.valuesOf name

theorem valuesOf_eq_nil_iff : fields.valuesOf name = [] ↔ ∀ f ∈ fields, ¬ SameName f.1 name := by
  rw [valuesOf, List.map_eq_nil_iff, List.filter_eq_nil_iff]
  simp only [decide_eq_true_eq]

/-- Nothing of a connection has crossed if and only if all of it is among what stays behind. -/
theorem CrossesBut.leavesConnection_iff (h : fields.CrossesBut crossed dropped) :
    fields.LeavesConnection crossed ↔
      ∀ f ∈ fields, fields.OfConnection f.1 → nameRead f.1 ∈ dropped := by
  constructor
  · intro hleaves f hf hscoped
    have hnone := hleaves f.1 hscoped
    rw [h] at hnone
    split at hnone
    next hdropped => exact hdropped
    next => exact absurd rfl (valuesOf_eq_nil_iff.mp hnone f hf)
  · intro hdropped name hscoped
    rw [h]
    split
    next => rfl
    next hkept =>
      apply valuesOf_eq_nil_iff.mpr
      intro f hf hsame
      apply hkept
      rw [← hsame]
      apply hdropped f hf
      rw [OfConnection, hsame]
      exact hscoped

end Headers

end Http

namespace Routing

open InletRegistry.Http

/-! ## Both ways -/

variable {name : String}

theorem exists_sameName_iff {names : List String} (h : ∀ other ∈ names, nameRead other = other) :
    (∃ other ∈ names, SameName name other) ↔ nameRead name ∈ names := by
  constructor
  · rintro ⟨other, hother, hsame⟩
    rw [hsame, h other hother]
    exact hother
  · intro hname
    exact ⟨nameRead name, hname, (nameRead_nameRead name).symm⟩

/-- A request's fields cross but for those of the hop's list and for an older mark of a hop. -/
theorem crossesBut_forwardHeaders (fields : Headers) :
    fields.CrossesBut ((forwardHeaders fields.read).besides [forwardedHeader])
      (forwardedHeader :: hopByHop) := by
  intro name
  have hsame : SameName name forwardedHeader ↔ nameRead name = forwardedHeader := by
    rw [SameName, nameRead_forwardedHeader]
  have hmark : (∃ other ∈ [forwardedHeader], SameName name other) ↔ nameRead name = forwardedHeader := by
    rw [exists_sameName_iff (List.forall_mem_singleton.mpr nameRead_forwardedHeader),
      List.mem_singleton]
  rw [Headers.valuesOf_besides, valuesOf_forwardHeaders]
  by_cases hname : nameRead name = forwardedHeader
  · rw [if_pos (hmark.mpr hname), if_pos (List.mem_cons.mpr (Or.inl hname))]
  · rw [if_neg (mt hmark.mp hname), if_neg (mt hsame.mp hname)]
    simp only [exists_sameName_iff nameRead_hopByHop, List.mem_cons, hname, false_or]

/-- An answer's fields cross but for those of the hop's list. -/
theorem crossesBut_relay (answered : Headers) (status : Nat) (body : List UInt8) :
    answered.CrossesBut (relay ⟨status, answered.read, body⟩).headers hopByHop := by
  intro name
  rw [relay_read, Headers.valuesOf_read, Headers.valuesOf_besides]
  simp only [exists_sameName_iff nameRead_hopByHop]

/-- Six of the eight fields are in the hop's list. -/
theorem mem_hopByHop_of_connectionFields {dropped : List String} (hdropped : hopByHop ⊆ dropped)
    (fields : Headers) (name : String) :
    (fields.OfConnection name → nameRead name ∈ dropped) ↔
      (nameRead name ∈ "keep-alive" :: "proxy-authenticate" :: fields.nominated →
        nameRead name ∈ dropped) := by
  have hfixed : ∀ other ∈ connectionFields,
      other ∈ hopByHop ∨ other = "keep-alive" ∨ other = "proxy-authenticate" := by decide
  have hmissing : "keep-alive" ∈ connectionFields ∧ "proxy-authenticate" ∈ connectionFields := by decide
  constructor
  · intro h hmem
    apply h
    rcases List.mem_cons.mp hmem with heq | hmem
    · exact List.mem_append_left _ (heq ▸ hmissing.1)
    · rcases List.mem_cons.mp hmem with heq | hnominated
      · exact List.mem_append_left _ (heq ▸ hmissing.2)
      · exact List.mem_append_right _ hnominated
  · intro h hscoped
    rcases List.mem_append.mp hscoped with hmem | hnominated
    · rcases hfixed _ hmem with hhop | heq | heq
      · exact hdropped hhop
      · exact h (List.mem_cons.mpr (Or.inl heq))
      · exact h (List.mem_cons_of_mem _ (List.mem_cons.mpr (Or.inl heq)))
    · exact h (List.mem_cons_of_mem _ (List.mem_cons_of_mem _ hnominated))

/-- **What is left behind of a connection.** For all fields of a request, however they are spelled, and
all fields of an answer: nothing that belongs to the connection crosses to the other side if and only if
there is no keepalive, no proxy's challenge, and no field that the message lists in its own `connection`
and that the hop does not leave out anyhow. Where there is one, all its values cross, in their order; and
the other six fields that HTTP scopes to a connection never do. -/
theorem connection_left_behind_iff (fields answered : Headers) (status : Nat) (body : List UInt8) :
    (fields.LeavesConnection ((forwardHeaders fields.read).besides [forwardedHeader]) ↔
      ∀ f ∈ fields, nameRead f.1 ∈ "keep-alive" :: "proxy-authenticate" :: fields.nominated →
        nameRead f.1 ∈ forwardedHeader :: hopByHop) ∧
    (answered.LeavesConnection (relay ⟨status, answered.read, body⟩).headers ↔
      ∀ f ∈ answered, nameRead f.1 ∈ "keep-alive" :: "proxy-authenticate" :: answered.nominated →
        nameRead f.1 ∈ hopByHop) ∧
    fields.CrossesBut ((forwardHeaders fields.read).besides [forwardedHeader])
      (forwardedHeader :: hopByHop) ∧
    answered.CrossesBut (relay ⟨status, answered.read, body⟩).headers hopByHop ∧
    ∀ name ∈ connectionFields, name ∈ hopByHop ∨ name = "keep-alive" ∨ name = "proxy-authenticate" := by
  refine ⟨?_, ?_, crossesBut_forwardHeaders fields, crossesBut_relay answered status body, by decide⟩
  · rw [(crossesBut_forwardHeaders fields).leavesConnection_iff]
    simp only [mem_hopByHop_of_connectionFields (List.subset_cons_self forwardedHeader hopByHop)]
  · rw [(crossesBut_relay answered status body).leavesConnection_iff]
    simp only [mem_hopByHop_of_connectionFields (List.Subset.refl hopByHop)]

/-- A message that scopes a field of its own to its connection, and a keepalive. -/
def session : Headers :=
  [("Connection", headerValue "close, X-Session"), ("X-Session", headerValue "42"),
    ("Keep-Alive", headerValue "timeout=5")]

/-- Both fields cross, as a request's and as an answer's. -/
theorem session_crosses :
    (session.OfConnection "x-session" ∧
      (forwardHeaders session.read).valuesOf "x-session" = [headerValue "42"] ∧
      (relay ⟨200, session.read, []⟩).headers.valuesOf "x-session" = [headerValue "42"]) ∧
    (session.OfConnection "keep-alive" ∧
      (forwardHeaders session.read).valuesOf "keep-alive" = [headerValue "timeout=5"] ∧
      (relay ⟨200, session.read, []⟩).headers.valuesOf "keep-alive" = [headerValue "timeout=5"]) ∧
    ¬ ∀ fields answered : Headers,
      fields.LeavesConnection ((forwardHeaders fields.read).besides [forwardedHeader]) ∧
        answered.LeavesConnection (relay ⟨200, answered.read, []⟩).headers := by
  have hscoped : session.OfConnection "x-session" := by decide +kernel
  have hvalue : (relay ⟨200, session.read, []⟩).headers.valuesOf "x-session" = [headerValue "42"] := by
    decide +kernel
  refine ⟨⟨hscoped, by decide +kernel, hvalue⟩, by decide +kernel, fun h => ?_⟩
  have hnone := (h session session).2 "x-session" hscoped
  rw [hvalue] at hnone
  cases hnone

end Routing

end InletRegistry
