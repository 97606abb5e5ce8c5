import InletRegistry.Access.Authentication
import InletRegistry.Proofs.Http.Header
import InletRegistry.Proofs.Text.Pieces

/-!
# Who may call, and as whom

`Admits` says whom a node with a secret takes the sender of a request for: on a public path the
anonymous principal, whatever else the request says, and elsewhere the one for whom a bearer token
vouches. `callerOf_eq_ok_iff` is that the check comes to the same.
-/

namespace InletRegistry.Access

open InletRegistry.Text InletRegistry.Http

variable {a : AuthSettings} {secret path caller subject : String} {now : Nat}
  {field : Option (List UInt8)} {authorization : List Char}

/-! ## Public paths -/

/-- A path is published if the segments of some public path begin its own. -/
def AuthSettings.Publishes (a : AuthSettings) (path : String) : Prop :=
  ∃ p ∈ a.publicPaths, segments p.toList <+: segments path.toList

theorem AuthSettings.isPublic_iff : a.isPublic path = true ↔ a.Publishes path := by
  simp only [isPublic, List.any_eq_true, reaches_iff, Publishes]

/-! ## Tokens -/

/-- A text names the bearer scheme in any letter case, and behind a space a token that is accepted under
the secret, once the blanks around it are taken away. -/
def Vouches (secret : String) (now : Nat) (authorization : List Char) (subject : String) : Prop :=
  ∃ scheme token, authorization = scheme ++ ' ' :: token ∧
    scheme.map Char.toLower = "bearer".toList ∧
    Token.accept (Utf8.encode secret) now (trimList token) = .ok subject

theorem lowerAscii_eq_toLower (c : Char) : lowerAscii c = c.toLower := by
  unfold lowerAscii Char.toLower
  by_cases h : c.val ≥ 'A'.val ∧ c.val ≤ 'Z'.val
  · have hupper : 'A' ≤ c ∧ c ≤ 'Z' := h
    have hle : c.toNat ≤ 90 := UInt32.le_iff_toNat_le.mp h.2
    have hlower : (c.val + ('a'.val - 'A'.val)).toNat = c.toNat + 32 := by
      rw [UInt32.toNat_add]
      exact Nat.mod_eq_of_lt (by show c.toNat + 32 < 2 ^ 32; omega)
    rw [if_pos hupper, dif_pos h, ← hlower]
    exact Char.ofNat_toNat ⟨_, _⟩
  · have hother : ¬ ('A' ≤ c ∧ c ≤ 'Z') := h
    rw [if_neg hother, dif_neg h]

theorem isBearer_iff {scheme : List Char} :
    isBearer scheme = true ↔ scheme.map Char.toLower = "bearer".toList := by
  rw [isBearer, beq_iff_eq, List.map_congr_left fun c _ => lowerAscii_eq_toLower c]

/-- The name of the scheme has no space in it, so it ends at the first one. -/
theorem ne_space_of_bearer {scheme : List Char} (h : scheme.map Char.toLower = "bearer".toList) :
    ∀ c ∈ scheme, (decide (c ≠ ' ')) = true := by
  intro c hc
  have hmem : c.toLower ∈ "bearer".toList := h ▸ List.mem_map_of_mem hc
  refine decide_eq_true ?_
  rintro rfl
  revert hmem
  decide

namespace Secret

variable {secret : Secret}

theorem validate_eq_ok_iff {token : List Char} :
    validate secret now token = .ok subject ↔ Token.accept secret now token = .ok subject := by
  unfold validate
  cases Token.accept secret now token <;> simp

theorem authenticate_eq_ok_iff :
    authenticate secret now authorization = .ok subject ↔
      ∃ scheme token, authorization = scheme ++ ' ' :: token ∧
        scheme.map Char.toLower = "bearer".toList ∧
        Token.accept secret now (trimList token) = .ok subject := by
  unfold authenticate
  simp only
  constructor
  · intro h
    have hsplit := List.takeWhile_append_dropWhile (p := (· ≠ ' ')) (l := authorization)
    split at h
    next => cases h
    next c token hrest =>
      split at h
      next hbearer =>
        have hspace : c = ' ' := by
          have hhead := List.head?_dropWhile_not (· ≠ ' ') authorization
          rw [hrest] at hhead
          simpa using hhead
        rw [hrest, hspace] at hsplit
        exact ⟨_, token, hsplit.symm, isBearer_iff.mp hbearer, validate_eq_ok_iff.mp h⟩
      next => cases h
  · rintro ⟨scheme, token, rfl, hbearer, haccept⟩
    have hscheme := ne_space_of_bearer hbearer
    have htake : (scheme ++ ' ' :: token).takeWhile (· ≠ ' ') = scheme := by
      rw [List.takeWhile_append_of_pos hscheme, List.takeWhile_cons_of_neg (by simp), List.append_nil]
    have hdrop : (scheme ++ ' ' :: token).dropWhile (· ≠ ' ') = ' ' :: token := by
      rw [List.dropWhile_append_of_pos hscheme, List.dropWhile_cons_of_neg (by simp)]
    simp only [htake, hdrop, isBearer_iff.mpr hbearer, ↓reduceIte]
    exact validate_eq_ok_iff.mpr haccept

end Secret

theorem authenticate_eq_ok_iff :
    authenticate secret now authorization = .ok subject ↔ Vouches secret now authorization subject :=
  Secret.authenticate_eq_ok_iff

/-! ## Callers -/

/-- Whom a node with a secret takes the sender of a request for, by its path and its first authorization
field. -/
inductive Admits (a : AuthSettings) (secret : String) (now : Nat) (path : String)
    (field : Option (List UInt8)) : String → Prop
  | openly (hpath : a.Publishes path) : Admits a secret now path field a.anonymousPrincipal
  | byToken {text : List Char} {subject : String} (hpath : ¬ a.Publishes path)
      (hfield : field = some (Utf8.encodeList text)) (hreadable : ∀ c ∈ text, IsReadable c)
      (hvouches : Vouches secret now text subject) : Admits a secret now path field subject

/-- **A caller is told exactly if one is admitted.** -/
theorem callerOf_eq_ok_iff (hon : a.enabled = true) (hsecret : a.jwtSecret = some secret) :
    callerOf a now path (field.bind headerText?) = .ok caller ↔
      Admits a secret now path field caller := by
  unfold callerOf
  rw [hon, hsecret, Bool.not_true, Bool.false_or]
  by_cases hpath : a.isPublic path = true
  · have hpublic := AuthSettings.isPublic_iff.mp hpath
    rw [if_pos hpath]
    constructor
    · rintro ⟨⟩
      exact .openly hpublic
    · rintro (_ | ⟨hnot, -, -, -⟩)
      · rfl
      · exact absurd hpublic hnot
  · have hclosed : ¬ a.Publishes path := fun h => hpath (AuthSettings.isPublic_iff.mpr h)
    rw [if_neg hpath]
    simp only
    cases htext : field.bind headerText? with
    | none =>
      constructor
      · exact nofun
      · rintro (hpublic | ⟨-, rfl, hreadable, -⟩)
        · exact absurd hpublic hclosed
        · rw [Option.bind_some, headerText?_eq_some_iff.mpr ⟨rfl, hreadable⟩] at htext
          cases htext
    | some text =>
      obtain ⟨value, rfl, hvalue⟩ := Option.bind_eq_some_iff.mp htext
      obtain ⟨rfl, hreadable⟩ := headerText?_eq_some_iff.mp hvalue
      simp only [authenticate_eq_ok_iff]
      constructor
      · exact .byToken hclosed rfl hreadable
      · rintro (hpublic | ⟨-, hfield, hreadable', hvouches⟩)
        · exact absurd hpublic hclosed
        · have hsame := headerText?_eq_some_iff.mpr ⟨Option.some.inj hfield, hreadable'⟩
          rw [hvalue] at hsame
          rw [Option.some.inj hsame]
          exact hvouches

end InletRegistry.Access
