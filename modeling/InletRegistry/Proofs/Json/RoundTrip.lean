import InletRegistry.Json.Reader
import InletRegistry.Json.Record
import InletRegistry.Proofs.Json.Scanning
import InletRegistry.Proofs.Text.Utf8

/-!
# Written values are read back

The tokens of a value are put together to that value again, whatever is open around it
(`Builder.run?_value`), and they are what the scanner finds in the text that is written for the value. So
a value that is written and read is what it was (`Source.read?_octets`).
-/

namespace InletRegistry.Json

open InletRegistry.Text

namespace Builder

variable {frames : List Frame}

/-- The first item of a list comes as a value does. -/
theorem run?_itemOrEnd (v : Json) (rest : List Token) :
    run? ⟨.list [] :: frames, .itemOrEnd⟩ (v.tokens ++ rest) =
      run? ⟨.list [] :: frames, .value⟩ (v.tokens ++ rest) := by
  cases v <;> rfl

theorem run?_firstItem (v : Json) (rest : List Json) (more : List Token) :
    run? ⟨.list [] :: frames, .itemOrEnd⟩ (itemTokens (v :: rest) ++ more) =
      run? ⟨.list [] :: frames, .value⟩ (itemTokens (v :: rest) ++ more) := by
  cases rest with
  | nil => exact run?_itemOrEnd v more
  | cons w rest =>
    rw [itemTokens, List.append_assoc]
    · exact run?_itemOrEnd v _
    · exact List.cons_ne_nil w rest

/-- The first name of an object comes as every other. -/
theorem run?_firstName (f : String × Json) (rest : List (String × Json)) (more : List Token) :
    run? ⟨frames, .nameOrEnd⟩ (fieldTokens (f :: rest) ++ more) =
      run? ⟨frames, .name []⟩ (fieldTokens (f :: rest) ++ more) := by
  cases rest <;> rfl

mutual

/-- The tokens of a value are put together to the value, whatever is open. -/
theorem run?_value : ∀ (v : Json) (frames : List Frame),
    run? ⟨frames, .value⟩ v.tokens = some ⟨frames, .more (Source.ofJson v)⟩
  | .null, _ | .bool _, _ | .number _, _ | .text _, _ => rfl
  | .list [], _ => rfl
  | .list (v :: rest), frames => 
    (run?_firstItem v rest _).trans (run?_items (v :: rest) [] frames (List.cons_ne_nil v rest))
  | .object [], _ => rfl
  | .object (f :: rest), frames => 
    (run?_firstName f rest _).trans (run?_fields (f :: rest) [] frames (List.cons_ne_nil f rest))

/-- The items of a list, and its end. -/
theorem run?_items : ∀ (items : List Json) (done : List Source) (frames : List Frame), items ≠ [] →
    run? ⟨.list done :: frames, .value⟩ (itemTokens items ++ [.mark .listEnd]) =
      some ⟨frames, .more (.list (done.reverse ++ Source.ofJsons items))⟩
  | [], _, _, h => absurd rfl h
  | [v], done, frames, _ => by
    have hends : run? ⟨.list done :: frames, .more (Source.ofJson v)⟩ [.mark .listEnd] =
        some ⟨frames, .more (.list (Source.ofJson v :: done).reverse)⟩ := rfl
    rw [itemTokens, run?_append, run?_value v, Option.bind_some, hends, List.reverse_cons]
    rfl
  | v :: w :: rest, done, frames, _ => by
    have hgoesOn : run? ⟨.list done :: frames, .more (Source.ofJson v)⟩
        (.mark .comma :: (itemTokens (w :: rest) ++ [.mark .listEnd])) =
        run? ⟨.list (Source.ofJson v :: done) :: frames, .value⟩
          (itemTokens (w :: rest) ++ [.mark .listEnd]) := rfl
    have htokens : itemTokens (v :: w :: rest) = v.tokens ++ .mark .comma :: itemTokens (w :: rest) := rfl
    rw [htokens, List.append_assoc, List.cons_append, run?_append, run?_value v, Option.bind_some,
      hgoesOn, run?_items (w :: rest) _ _ (List.cons_ne_nil w rest), List.reverse_cons, List.append_assoc]
    rfl

/-- The fields of an object, and its end. -/
theorem run?_fields : ∀ (fields : List (String × Json)) (done : List (Option String × Source))
    (frames : List Frame), fields ≠ [] →
    run? ⟨frames, .name done⟩ (fieldTokens fields ++ [.mark .objectEnd]) =
      some ⟨frames, .more (.object (done.reverse ++ Source.ofFields fields))⟩
  | [], _, _, h => absurd rfl h
  | [(n, v)], done, frames, _ => by
    have hnamed : run? ⟨frames, .name done⟩ (fieldTokens [(n, v)] ++ [.mark .objectEnd]) =
        run? ⟨.object done (some n) :: frames, .value⟩ (v.tokens ++ [.mark .objectEnd]) := rfl
    have hends : run? ⟨.object done (some n) :: frames, .more (Source.ofJson v)⟩ [.mark .objectEnd] =
        some ⟨frames, .more (.object ((some n, Source.ofJson v) :: done).reverse)⟩ := rfl
    rw [hnamed, run?_append, run?_value v, Option.bind_some, hends, List.reverse_cons]
    rfl
  | (n, v) :: w :: rest, done, frames, _ => by
    have hnamed : run? ⟨frames, .name done⟩ (fieldTokens ((n, v) :: w :: rest) ++ [.mark .objectEnd]) =
        run? ⟨.object done (some n) :: frames, .value⟩
          ((v.tokens ++ .mark .comma :: fieldTokens (w :: rest)) ++ [.mark .objectEnd]) := rfl
    have hgoesOn : run? ⟨.object done (some n) :: frames, .more (Source.ofJson v)⟩
        (.mark .comma :: (fieldTokens (w :: rest) ++ [.mark .objectEnd])) =
        run? ⟨frames, .name ((some n, Source.ofJson v) :: done)⟩
          (fieldTokens (w :: rest) ++ [.mark .objectEnd]) := rfl
    rw [hnamed, List.append_assoc, List.cons_append, run?_append, run?_value v, Option.bind_some,
      hgoesOn, run?_fields (w :: rest) _ _ (List.cons_ne_nil w rest), List.reverse_cons, List.append_assoc]
    rfl

end

end Builder

namespace Source

/-- The characters that are written for a value are read as the value. -/
theorem ofSymbols?_printList {v : Json} (h : v.IsLegible) :
    ofSymbols? ((printList v).map some) = some (ofJson v) := by
  simp only [ofSymbols?, scan?_printList h, Option.bind_some, ofTokens?, Builder.start, Builder.run?_value,
    Builder.finish?]

/-- **A value that is written and read is what it was.** -/
theorem read?_octets {v : Json} (h : v.IsLegible) : read? v.octets = some (ofJson v) := by
  rw [read?, octets, Utf8.marked_encodeList, ofSymbols?_printList h]

theorem readText?_print {v : Json} (h : v.IsLegible) : readText? v.print = some (ofJson v) := by
  rw [readText?, print, String.toList_ofList, ofSymbols?_printList h]

/-! ## Natural numbers -/

/-- A natural number is read as itself up to the limit. -/
theorem toNatural?_natural {limit n : Nat} (h : n ≤ limit) :
    toNatural? limit (ofJson (.natural n)) = some n := if_pos h

theorem optional_ofNatural? {limit : Nat} {v : Option Nat} (h : ∀ n ∈ v, n ≤ limit) :
    Document.optional (toNatural? limit) (some (ofJson (ofNatural? v))) = some v := by
  cases v with
  | none => rfl
  | some n =>
    show (toNatural? limit (ofJson (.natural n))).map some = _
    rw [toNatural?_natural (h n rfl), Option.map_some]

end Source

theorem isLegible_ofNatural? {v : Option Nat} (h : ∀ n ∈ v, n ≤ Decimal.word64) :
    (ofNatural? v).IsLegible := by
  cases v with
  | none => trivial
  | some n => exact Number.isLegible_natural (h n rfl)

end InletRegistry.Json
