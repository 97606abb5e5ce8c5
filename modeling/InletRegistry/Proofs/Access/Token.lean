import InletRegistry.Proofs.Access.Authentication
import InletRegistry.Proofs.Json.RoundTrip
import InletRegistry.Proofs.Text.Base64

/-!
# Issued tokens are accepted

A token that was issued is read part by part as what it was made of. Base64 has no dot in it, so the dots
of a token divide it where they were put (`parts?_issued`); behind Base64 and JSON its claims are the claims
that were made (`claimsOf?_claimsJson`); and its signature is that of the two parts in front of it. So until
it expires it is accepted for the subject that it was issued to (`accept_issue`).
-/

namespace InletRegistry.Access

open InletRegistry.Text

variable {secret : Secret} {identity : String} {lifetime : Option Nat} {issued now : Nat}

namespace Token

/-! ## The parts of a token -/

theorem splitLast?_append {front back : List Char} (h : '.' ∉ back) :
    splitLast? (front ++ '.' :: back) = some (front, back) := by
  have hback : ∀ c ∈ back.reverse, decide (c ≠ '.') = true := fun c hc =>
    decide_eq_true fun heq => h (heq ▸ List.mem_reverse.mp hc)
  have hreverse : (front ++ '.' :: back).reverse = back.reverse ++ '.' :: front.reverse := by
    rw [List.reverse_append, List.reverse_cons, List.append_assoc, List.singleton_append]
  have hdrop : (back.reverse ++ '.' :: front.reverse).dropWhile (· ≠ '.') = '.' :: front.reverse := by
    rw [List.dropWhile_append_of_pos hback, List.dropWhile_cons_of_neg (by decide)]
  have htake : (back.reverse ++ '.' :: front.reverse).takeWhile (· ≠ '.') = back.reverse := by
    rw [List.takeWhile_append_of_pos hback, List.takeWhile_cons_of_neg (by decide), List.append_nil]
  simp only [splitLast?, hreverse, hdrop, htake, List.reverse_reverse]

/-- A token is divided where it was put together. -/
theorem parts?_issued {header claims signature : List Char} (hclaims : '.' ∉ claims)
    (hsignature : '.' ∉ signature) :
    parts? ((header ++ '.' :: claims) ++ '.' :: signature) = some ⟨header, claims, signature⟩ := by
  simp only [parts?, splitLast?_append hsignature, splitLast?_append hclaims, Option.map_some]

/-! ## What the parts say -/

theorem document_encode {v : Json} (h : v.IsLegible) :
    document (Base64.encode v.octets) = .ok (Json.Source.ofJson v) := by
  simp only [document, Base64.decode?_encode, Json.Source.read?_octets h]

theorem algorithmOf?_header : algorithmOf? (Json.Source.ofJson header) = some "HS256" := rfl

theorem isLegible_claimsJson {c : Claims} (hexpires : c.expires ≤ Decimal.word64)
    (hissued : c.issued ≤ Decimal.word64) : (claimsJson c).IsLegible :=
  ⟨trivial, Json.Number.isLegible_natural hexpires, Json.Number.isLegible_natural hissued, trivial⟩

theorem claimsOf?_claimsJson {c : Claims} (hexpires : c.expires ≤ Decimal.word64)
    (hissued : c.issued ≤ Decimal.word64) :
    claimsOf? (Json.Source.ofJson (claimsJson c)) = some (c, false) := by
  have hfields : (Json.Source.ofJson (claimsJson c)).fields? ["sub", "exp", "iat", "aud", "iss", "nbf"] 6 =
      some [some (.text (some c.subject)), some (.number (some (.natural c.expires))),
        some (.number (some (.natural c.issued))), none, none, none] := rfl
  have hexp : Document.required (Json.Source.toNatural? Decimal.word64)
      (some (.number (some (.natural c.expires)))) = some c.expires := Json.Source.toNatural?_natural hexpires
  have hiat : Document.required (Json.Source.toNatural? Decimal.word64)
      (some (.number (some (.natural c.issued)))) = some c.issued := Json.Source.toNatural?_natural hissued
  simp only [claimsOf?, hfields, hexp, hiat]
  rfl

/-! ## Acceptance -/

/-- **A token is accepted for the subject that it was issued to** until it has been expired for longer than
the leeway. -/
theorem accept_issue (hfits : issued + lifetime.getD defaultLifetime ≤ Decimal.word64)
    (hnow : now ≤ issued + lifetime.getD defaultLifetime + leeway) :
    accept secret now (issue secret issued identity lifetime) = .ok identity := by
  have hexpires : (claimsFor issued identity lifetime).expires ≤ Decimal.word64 := hfits
  have hissued : (claimsFor issued identity lifetime).issued ≤ Decimal.word64 :=
    Nat.le_trans (Nat.le_add_right _ _) hfits
  have hheader : header.IsLegible := ⟨trivial, trivial, trivial⟩
  have hgood : ¬ (claimsFor issued identity lifetime).expires + leeway < now := Nat.not_lt.mpr hnow
  have hread := document_encode (isLegible_claimsJson hexpires hissued)
  have hclaims := claimsOf?_claimsJson hexpires hissued
  simp only [accept, issue, signature, parts?_issued (Base64.dot_not_mem_encode _)
    (Base64.dot_not_mem_encode _), acceptParts, document_encode hheader, algorithmOf?_header, ne_eq,
    not_true_eq_false, ↓reduceIte, hread, hclaims, hgood, Bool.false_eq_true]
  rfl

/-! ## The text of a token -/

theorem count_dot_issue : (issue secret issued identity lifetime).count '.' = 2 := by
  have hnone : ∀ bs, (Base64.encode bs).count '.' = 0 := fun bs =>
    List.count_eq_zero.mpr (Base64.dot_not_mem_encode bs)
  simp only [issue, signature, List.count_append, List.count_cons_self, hnone]

theorem not_isBlank_of_mem_issue {c : Char} (h : c ∈ issue secret issued identity lifetime) :
    isBlank c = false := by
  simp only [issue, signature, List.mem_append, List.mem_cons] at h
  rcases h with (h | rfl | h) | rfl | h
  · exact Base64.not_isBlank_of_mem_encode h
  · rfl
  · exact Base64.not_isBlank_of_mem_encode h
  · rfl
  · exact Base64.not_isBlank_of_mem_encode h

end Token

/-- **Issued tokens vouch for the identity that they were issued to.** Under every secret and for every
identity, if the seconds up to the expiry fit 64 bits, a token has two dots and no blank in it. Until it
expires it is accepted as that identity's, behind the name of the bearer scheme in any letter case and a
space, with any blanks around it. Without a lifetime of its own it expires after a day. -/
theorem issued_tokens_vouch (hfits : issued + lifetime.getD (24 * 3600) ≤ Decimal.word64) :
    (∀ c ∈ Token.issue secret issued identity lifetime, isBlank c = false) ∧
    (Token.issue secret issued identity lifetime).count '.' = 2 ∧
    ∀ (scheme before behind : List Char) (now : Nat), scheme.map Char.toLower = "bearer".toList →
      (∀ c ∈ before, isBlank c = true) → (∀ c ∈ behind, isBlank c = true) →
      now ≤ issued + lifetime.getD (24 * 3600) →
      Secret.authenticate secret now
        (scheme ++ ' ' :: (before ++ Token.issue secret issued identity lifetime ++ behind)) =
          .ok identity := by
  refine ⟨fun c hc => Token.not_isBlank_of_mem_issue hc, Token.count_dot_issue,
    fun scheme before behind now hscheme hbefore hbehind hnow => ?_⟩
  refine Secret.authenticate_eq_ok_iff.mpr ⟨scheme, _, rfl, hscheme, ?_⟩
  rw [trimList_append hbefore (fun c hc => Token.not_isBlank_of_mem_issue hc) hbehind]
  exact Token.accept_issue hfits (Nat.le_trans hnow (Nat.le_add_right _ _))

/-- A secret that is no text, an identity with a quote, a line break and a control character in it, a
scheme in mixed letter case and blanks of several kinds; at the end of the day. -/
theorem issued_tokens_vouch_awkward :
    Secret.authenticate [0xFF, 0x00, 0xC0] 86401
        ("bEaReR".toList ++ ' ' :: ([' ', '\t'] ++
          Token.issue [0xFF, 0x00, 0xC0] 1 "\"ada\"\n\x01" none ++ ['\u00A0'])) =
      .ok "\"ada\"\n\x01" :=
  (issued_tokens_vouch (by decide)).2.2 _ _ _ _ (by decide) (List.all_eq_true.mp (by decide))
    (List.all_eq_true.mp (by decide)) (by decide)

end InletRegistry.Access
