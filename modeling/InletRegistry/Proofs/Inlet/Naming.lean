import InletRegistry.Http.Route
import InletRegistry.Inlet.Entity
import InletRegistry.Proofs.Http.Target
import InletRegistry.Proofs.Text.Spelling

/-!
# Ids survive URIs

An id is escaped before it stands in a URI, percent signs and slashes included. So it is one segment
there, whatever is in it, and this segment is read as the id: nothing gets lost, and no two ids have the
same URI (`ids_survive_uris`). Slashes at the end of the base do not matter.
-/

namespace InletRegistry

open InletRegistry.Text InletRegistry.Text.Percent InletRegistry.Http

/-! ## Escaped ids -/

/-- The characters that may stand in an escaped id: visible ones of ASCII that delimit nothing. -/
def isIdCharacter (c : Char) : Bool :=
  0x20 < c.toNat && c.toNat < 0x7F && decide (c ∉ ['/', '?', '#', '&'])

theorem masksEscapes_idSafe : MasksEscapes idSafe where
  ascii b hsafe := by
    have hall : ∀ n < 256, idSafe (UInt8.ofNat n) = true → n < 0x80 := by decide +kernel
    apply hall b.toNat b.toNat_lt
    rw [UInt8.ofNat_toNat]
    exact hsafe
  percent := rfl

/-- An octet that is not escaped is a character that may stand there. -/
theorem isIdCharacter_of_idSafe {b : UInt8} (h : idSafe b = true) :
    Char.ofNat b.toNat ≠ '%' ∧ isIdCharacter (Char.ofNat b.toNat) = true := by
  have hall : ∀ n < 256, idSafe (UInt8.ofNat n) = true →
      Char.ofNat n ≠ '%' ∧ isIdCharacter (Char.ofNat n) = true := by decide +kernel
  apply hall b.toNat b.toNat_lt
  rw [UInt8.ofNat_toNat]
  exact h

theorem isIdCharacter_of_digit {c : Char} (h : (Hex.digit? c).isSome = true) :
    isIdCharacter c = true := by
  have hall : ∀ n < 0x80, (Hex.digit? (Char.ofNat n)).isSome = true →
      isIdCharacter (Char.ofNat n) = true := by decide +kernel
  have hdigit := hall c.toNat (Hex.toNat_lt_of_digit? h)
  rw [Char.ofNat_toNat] at hdigit
  exact hdigit h

theorem spelled_encodeId (id : String) : Spelled isIdCharacter (encodeId id).toList := by
  rw [encodeId, String.toList_ofList]
  exact spelled_encodeOctets fun _ _ hsafe => isIdCharacter_of_idSafe hsafe

theorem isIdCharacter_of_mem_encodeId {id : String} {c : Char} (h : c ∈ (encodeId id).toList) :
    isIdCharacter c = true := by
  rcases (spelled_encodeId id).mem h with hplain | rfl | hdigit
  · exact hplain
  · rfl
  · exact isIdCharacter_of_digit hdigit

/-- **An escaped id is read as the id.** -/
theorem decodeId_encodeId (id : String) : decodeId (encodeId id).toList = .ok id := by
  rw [decodeId_eq_ok_iff, encodeId, String.toList_ofList, encode,
    decode_encodeOctets masksEscapes_idSafe, Utf8.marked_encodeList]

theorem encodeId_injective : Function.Injective encodeId := by
  intro id other h
  have hid := decodeId_encodeId id
  rw [h, decodeId_encodeId] at hid
  exact (Except.ok.inj hid).symm

theorem slash_not_mem_encodeId (id : String) : '/' ∉ (encodeId id).toList := by
  intro hmem
  cases isIdCharacter_of_mem_encodeId hmem

/-! ## URIs of ids -/

/-- What a URI has in front of the last segment. -/
theorem toList_resourceUri (base collection id : String) :
    (resourceUri base collection id).toList =
      ((dropFinalSlashes base).toList ++ '/' :: collection.toList) ++ '/' :: (encodeId id).toList := by
  simp only [resourceUri, String.toList_append, List.append_assoc]
  rfl

theorem resourceUri_injective (base collection : String) :
    Function.Injective (resourceUri base collection) := by
  intro id other h
  apply encodeId_injective
  have hlists := congrArg String.toList h
  rw [toList_resourceUri, toList_resourceUri] at hlists
  have hsegment := (List.cons.inj (List.append_cancel_left hlists)).2
  exact String.toList_inj.mp hsegment

/-- The last segment of a URI is the escaped id. -/
theorem getLast?_segments_resourceUri (base collection id : String) :
    (segments (resourceUri base collection id).toList).getLast? = some (encodeId id).toList := by
  rw [toList_resourceUri, segments, pieces_append, pieces_of_not_mem (slash_not_mem_encodeId id)]
  exact List.getLast?_concat

theorem dropFinalSlashes_append_slashes (base : String) (k : Nat) :
    dropFinalSlashes (base ++ String.ofList (List.replicate k '/')) = dropFinalSlashes base := by
  have hslashes : ∀ c ∈ List.replicate k '/', decide (c = '/') = true := by
    intro c hc
    exact decide_eq_true (List.eq_of_mem_replicate hc)
  rw [dropFinalSlashes, String.toList_append, String.toList_ofList, List.reverse_append,
    List.reverse_replicate, List.dropWhile_append_of_pos hslashes, dropFinalSlashes]

/-- **Ids survive URIs.** Whatever characters are in an id: escaped, it is visible ASCII without a slash,
a question mark, a number sign or an ampersand, every percent sign in it begins an escape, and it is read
as the id. So no two ids are escaped alike. Under every base and in every collection no two ids have the
same URI, the last segment of a URI is read as the id, and slashes at the end of the base do not change
the URI. -/
theorem ids_survive_uris :
    (∀ id : String,
      (∀ c ∈ (encodeId id).toList, 0x20 < c.toNat ∧ c.toNat < 0x7F ∧ c ∉ ['/', '?', '#', '&']) ∧
      (∀ front rest, (encodeId id).toList = front ++ '%' :: rest →
        ∃ high low more, rest = high :: low :: more ∧ (Hex.digit? high).isSome = true ∧
          (Hex.digit? low).isSome = true) ∧
      decodeId (encodeId id).toList = .ok id) ∧
    Function.Injective encodeId ∧
    ∀ base collection : String, Function.Injective (resourceUri base collection) ∧
      ∀ id, (∃ segment, (segments (resourceUri base collection id).toList).getLast? = some segment ∧
          decodeId segment = .ok id) ∧
        ∀ k, resourceUri (base ++ String.ofList (List.replicate k '/')) collection id =
          resourceUri base collection id := by
  refine ⟨fun id => ⟨fun c hc => ?_, fun front rest htext => ?_, decodeId_encodeId id⟩,
    encodeId_injective, fun base collection => ⟨resourceUri_injective base collection, fun id =>
      ⟨⟨_, getLast?_segments_resourceUri base collection id, decodeId_encodeId id⟩, fun k => ?_⟩⟩⟩
  · have hplain := isIdCharacter_of_mem_encodeId hc
    simp only [isIdCharacter, Bool.and_eq_true, decide_eq_true_eq] at hplain
    exact ⟨hplain.1.1, hplain.1.2, hplain.2⟩
  · have hspelled := spelled_encodeId id
    rw [htext] at hspelled
    exact hspelled.digits
  · rw [resourceUri, dropFinalSlashes_append_slashes, resourceUri]

end InletRegistry
