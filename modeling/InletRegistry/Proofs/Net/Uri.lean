import InletRegistry.Net.SocketAddress
import InletRegistry.Proofs.Net.Url
import InletRegistry.Proofs.Text.Spelling

/-!
# URIs

The generic syntax of URIs: a scheme, an authority, a path, a query and a fragment, and what each of them
may be spelled in. The marks between the parts are such that no text is that of two URIs: a reader who
looks for the first number sign, then for the first question mark in front of it, and so on, finds the
parts with which the text was put together (`read_text`). That needs less than that the URI be valid
(`Valid.apart`), so also of a text that is not a valid URI one can tell which of its parts is to blame.
-/

namespace InletRegistry.Net

open InletRegistry.Text InletRegistry.Text.Percent

namespace Uri

variable {cs : List Char} {c mark : Char}

/-! ## Characters -/

/-- Characters that never delimit anything. -/
def isUnreserved (c : Char) : Bool := c.isAlphanum || ['-', '.', '_', '~'].contains c

/-- Characters that may delimit something within a part. -/
def isSubDelimiter (c : Char) : Bool :=
  ['!', '$', '&', '\x27', '(', ')', '*', '+', ',', ';', '='].contains c

/-- The characters of a name of a host. -/
def isNameCharacter (c : Char) : Bool := isUnreserved c || isSubDelimiter c

/-- The characters of a user. -/
def isUserCharacter (c : Char) : Bool := isNameCharacter c || c == ':'

/-- The characters of a segment of a path. -/
def isPathCharacter (c : Char) : Bool := isUserCharacter c || c == '@'

/-- The characters of a query and of a fragment. -/
def isQueryCharacter (c : Char) : Bool := isPathCharacter c || c == '/' || c == '?'

def isSchemeCharacter (c : Char) : Bool := c.isAlphanum || ['+', '-', '.'].contains c

/-- The characters of an address of version 6. -/
def isAddressCharacter (c : Char) : Bool := (Hex.digit? c).isSome || c == ':' || c == '.'

/-- The characters that are found in an authority. -/
def isAuthorityCharacter (c : Char) : Bool :=
  isUserCharacter c || (Hex.digit? c).isSome || ['%', '@', '[', ']'].contains c

/-! ## Parts -/

/-- A part behind its mark, if there is one. -/
def marked (mark : Char) : Option (List Char) → List Char
  | some cs => mark :: cs
  | none => []

/-- A scheme begins with a letter. -/
structure IsScheme (cs : List Char) : Prop where
  letter : ∃ c, cs.head? = some c ∧ c.isAlpha = true
  characters : ∀ c ∈ cs, isSchemeCharacter c = true

/-- A host: a name, also one that is an address of version 4, or an address in brackets. -/
inductive IsHost : List Char → Prop where
  | name {cs : List Char} (hcs : Spelled isNameCharacter cs) : IsHost cs
  | address {cs : List Char} (hcs : ∀ c ∈ cs, isAddressCharacter c = true)
    (haddress : (SocketAddress.address6? cs).isSome = true) : IsHost ('[' :: (cs ++ [']']))
  /-- An address of a version to come. -/
  | future {v : Char} {version cs : List Char} (hv : v = 'v' ∨ v = 'V') (hversion : version ≠ [])
    (hdigits : ∀ c ∈ version, (Hex.digit? c).isSome = true) (hne : cs ≠ [])
    (hcs : ∀ c ∈ cs, isUserCharacter c = true) : IsHost ('[' :: v :: (version ++ '.' :: (cs ++ [']'])))

/-- Who is spoken to. -/
structure Authority where
  user : Option (List Char)
  host : List Char
  port : Option (List Char)

namespace Authority

def text (a : Authority) : List Char :=
  a.user.elim [] (fun user => user ++ ['@']) ++ (a.host ++ marked ':' a.port)

structure Valid (a : Authority) : Prop where
  user : ∀ user, a.user = some user → Spelled isUserCharacter user
  host : IsHost a.host
  port : ∀ port, a.port = some port → ∀ c ∈ port, c.isDigit = true

end Authority

end Uri

open Uri

/-- The parts of a URI. -/
structure Uri where
  scheme : List Char
  authority : Option (List Char)
  path : List Char
  query : Option (List Char)
  fragment : Option (List Char)

namespace Uri

variable {u w : Uri} {a : Authority}

/-- What stands between the scheme and the path. -/
def root (u : Uri) : List Char := u.authority.elim [] fun authority => '/' :: '/' :: authority

/-- What stands in front of the query. -/
def front (u : Uri) : List Char := u.scheme ++ ':' :: (u.root ++ u.path)

def text (u : Uri) : List Char := u.front ++ marked '?' u.query ++ marked '#' u.fragment

/-- **What the generic syntax allows.** A path begins with a slash behind an authority unless it is empty,
and not with two where there is none. -/
structure Valid (u : Uri) : Prop where
  scheme : IsScheme u.scheme
  authority : ∀ authority, u.authority = some authority →
    ∃ a : Authority, a.Valid ∧ a.text = authority
  path : ∀ s ∈ segments u.path, Spelled isPathCharacter s
  rooted : u.authority ≠ none → ∀ c, u.path.head? = some c → c = '/'
  bare : u.authority = none → ¬ ['/', '/'] <+: u.path
  query : ∀ query, u.query = some query → Spelled isQueryCharacter query
  fragment : ∀ fragment, u.fragment = some fragment → Spelled isQueryCharacter fragment

/-- The parts are kept apart by the marks between them: no mark that ends a part is found in it. -/
structure Apart (u : Uri) : Prop where
  scheme : ∀ mark ∈ [':', '?', '#'], mark ∉ u.scheme
  authority : ∀ authority, u.authority = some authority → ∀ mark ∈ ['/', '?', '#'], mark ∉ authority
  path : ∀ mark ∈ ['?', '#'], mark ∉ u.path
  rooted : u.authority ≠ none → ∀ c, u.path.head? = some c → c = '/'
  bare : u.authority = none → ¬ ['/', '/'] <+: u.path
  query : ∀ query, u.query = some query → '#' ∉ query

/-! ## Reading -/

/-- Takes the parts of a text from each other. -/
def read (cs : List Char) : Uri :=
  let whole := Url.splitFirst '#' cs
  let asked := Url.splitFirst '?' whole.1
  let named := Url.splitFirst ':' asked.1
  let rest := named.2.getD []
  if ['/', '/'] <+: rest then
    ⟨named.1, some ((rest.drop 2).takeWhile (· ≠ '/')), (rest.drop 2).dropWhile (· ≠ '/'), asked.2,
      whole.2⟩
  else ⟨named.1, none, rest, asked.2, whole.2⟩

theorem splitFirst_marked {part : Option (List Char)} (h : mark ∉ cs) :
    Url.splitFirst mark (cs ++ marked mark part) = (cs, part) := by
  rw [Url.splitFirst_append h]
  cases part with
  | none => rw [marked, Url.splitFirst_of_not_mem List.not_mem_nil, List.append_nil]
  | some part => rw [marked, Url.splitFirst_cons_self, List.append_nil]

namespace Apart

/-- What ends the path, or the query, is not found in front of it. -/
theorem not_mem_front (h : u.Apart) (hmark : mark ∈ ['?', '#']) : mark ∉ u.front := by
  have hne : mark ≠ ':' ∧ mark ≠ '/' := by
    simp only [List.mem_cons, List.not_mem_nil, or_false] at hmark
    rcases hmark with rfl | rfl <;> decide
  have hroot : mark ∉ u.root := by
    unfold root
    cases hauthority : u.authority with
    | none => exact List.not_mem_nil
    | some authority =>
      have hrest := h.authority authority hauthority mark (List.mem_cons_of_mem _ hmark)
      simp only [Option.elim_some, List.mem_cons, hne.2, false_or]
      exact hrest
  intro hmem
  rcases List.mem_append.mp hmem with hscheme | hmem
  · exact h.scheme mark (List.mem_cons_of_mem _ hmark) hscheme
  · rcases List.mem_cons.mp hmem with heq | hmem
    · exact hne.1 heq
    · rcases List.mem_append.mp hmem with hmem | hpath
      · exact hroot hmem
      · exact h.path mark hmark hpath

theorem splitFirst_text (h : u.Apart) :
    Url.splitFirst '#' u.text = (u.front ++ marked '?' u.query, u.fragment) := by
  apply splitFirst_marked
  intro hmem
  rcases List.mem_append.mp hmem with hfront | hquery
  · exact h.not_mem_front (by decide) hfront
  · cases hpart : u.query with
    | none =>
      rw [hpart] at hquery
      cases hquery
    | some query =>
      rw [hpart] at hquery
      rcases List.mem_cons.mp hquery with heq | hquery
      · cases heq
      · exact h.query query hpart hquery

/-- What follows the authority begins with a slash, so that is where the authority ends. -/
theorem splitAt_slash (h : u.Apart) {authority : List Char} (hauthority : u.authority = some authority) :
    (authority ++ u.path).takeWhile (· ≠ '/') = authority ∧
      (authority ++ u.path).dropWhile (· ≠ '/') = u.path := by
  have hnone : '/' ∉ authority := h.authority authority hauthority '/' (by decide)
  have hall : ∀ c ∈ authority, decide (c ≠ '/') = true := fun c hc =>
    decide_eq_true fun heq => hnone (heq ▸ hc)
  have hrooted := h.rooted (by rw [hauthority]; exact Option.some_ne_none _)
  rw [List.takeWhile_append_of_pos hall, List.dropWhile_append_of_pos hall]
  cases hpath : u.path with
  | nil => exact ⟨List.append_nil _, rfl⟩
  | cons c rest =>
    obtain rfl := hrooted c (by rw [hpath]; rfl)
    exact ⟨List.append_nil _, rfl⟩

end Apart

/-- **A text is read as the URI that was written.** -/
theorem read_text (h : u.Apart) : read u.text = u := by
  have hquestion : Url.splitFirst '?' (u.front ++ marked '?' u.query) = (u.front, u.query) :=
    splitFirst_marked (h.not_mem_front (by decide))
  have hcolon : Url.splitFirst ':' u.front = (u.scheme, some (u.root ++ u.path)) := by
    have hscheme := h.scheme ':' List.mem_cons_self
    rw [front, Url.splitFirst_append hscheme, Url.splitFirst_cons_self, List.append_nil]
  unfold read
  rw [h.splitFirst_text]
  simp only [hquestion, hcolon, Option.getD_some]
  cases hauthority : u.authority with
  | none =>
    have hroot : u.root ++ u.path = u.path := by rw [root, hauthority]; rfl
    rw [hroot, if_neg (h.bare hauthority), ← hauthority]
  | some authority =>
    obtain ⟨htake, hdrop⟩ := h.splitAt_slash hauthority
    have hroot : u.root ++ u.path = '/' :: '/' :: (authority ++ u.path) := by rw [root, hauthority]; rfl
    have hslashes : ['/', '/'] <+: '/' :: '/' :: (authority ++ u.path) := ⟨_, rfl⟩
    rw [hroot, if_pos hslashes]
    simp only [List.drop_succ_cons, List.drop_zero, htake, hdrop, ← hauthority]

/-- No text is that of two URIs. -/
theorem Apart.eq_of_text_eq (hu : u.Apart) (hw : w.Apart) (h : u.text = w.text) : u = w := by
  rw [← read_text hu, h, read_text hw]

/-! ## Valid URIs -/

theorem isAuthorityCharacter_of_user (h : isUserCharacter c = true) : isAuthorityCharacter c = true := by
  rw [isAuthorityCharacter, h, Bool.true_or, Bool.true_or]

theorem isAuthorityCharacter_of_digit (h : (Hex.digit? c).isSome = true) :
    isAuthorityCharacter c = true := by
  rw [isAuthorityCharacter, h, Bool.or_true, Bool.true_or]

theorem isAuthorityCharacter_of_spelled {may : Char → Bool} (h : Spelled may cs)
    (hmay : ∀ c, may c = true → isUserCharacter c = true) (hc : c ∈ cs) :
    isAuthorityCharacter c = true := by
  rcases h.mem hc with hplain | rfl | hdigit
  · exact isAuthorityCharacter_of_user (hmay c hplain)
  · rfl
  · exact isAuthorityCharacter_of_digit hdigit

theorem isUserCharacter_of_name (h : isNameCharacter c = true) : isUserCharacter c = true := by
  rw [isUserCharacter, h, Bool.true_or]

theorem isAuthorityCharacter_of_isDigit (h : c.isDigit = true) : isAuthorityCharacter c = true := by
  apply isAuthorityCharacter_of_user
  apply isUserCharacter_of_name
  rw [isNameCharacter, isUnreserved, Char.isAlphanum, h, Bool.or_true, Bool.true_or, Bool.true_or]

theorem IsHost.characters (h : IsHost cs) : ∀ c ∈ cs, isAuthorityCharacter c = true := by
  intro c hc
  cases h with
  | name hname => exact isAuthorityCharacter_of_spelled hname (fun _ => isUserCharacter_of_name) hc
  | address haddress =>
    simp only [List.mem_cons, List.mem_append, List.not_mem_nil, or_false] at hc
    rcases hc with rfl | hc | rfl
    · rfl
    · have hany := haddress c hc
      simp only [isAddressCharacter, Bool.or_eq_true, beq_iff_eq] at hany
      rcases hany with (hdigit | rfl) | rfl
      · exact isAuthorityCharacter_of_digit hdigit
      · rfl
      · rfl
    · rfl
  | future hv _ hdigits _ hcs =>
    simp only [List.mem_cons, List.mem_append, List.not_mem_nil, or_false] at hc
    rcases hc with rfl | rfl | hc | rfl | hc | rfl
    · rfl
    · rcases hv with rfl | rfl <;> rfl
    · exact isAuthorityCharacter_of_digit (hdigits c hc)
    · rfl
    · exact isAuthorityCharacter_of_user (hcs c hc)
    · rfl

theorem Authority.Valid.characters (h : a.Valid) : ∀ c ∈ a.text, isAuthorityCharacter c = true := by
  intro c hc
  rcases List.mem_append.mp hc with hc | hc
  · cases huser : a.user with
    | none =>
      rw [huser] at hc
      cases hc
    | some user =>
      rw [huser] at hc
      rcases List.mem_append.mp hc with hc | hc
      · exact isAuthorityCharacter_of_spelled (h.user user huser) (fun _ hmay => hmay) hc
      · rw [List.mem_singleton.mp hc]
        rfl
  · rcases List.mem_append.mp hc with hc | hc
    · exact h.host.characters c hc
    · cases hport : a.port with
      | none =>
        rw [hport] at hc
        cases hc
      | some port =>
        rw [hport] at hc
        rcases List.mem_cons.mp hc with rfl | hc
        · rfl
        · exact isAuthorityCharacter_of_isDigit (h.port port hport c hc)

theorem Valid.apart (h : u.Valid) : u.Apart where
  scheme mark hmark hmem := by
    have hcharacter := h.scheme.characters mark hmem
    simp only [List.mem_cons, List.not_mem_nil, or_false] at hmark
    rcases hmark with rfl | rfl | rfl <;> cases hcharacter
  authority authority hauthority mark hmark hmem := by
    obtain ⟨a, ha, rfl⟩ := h.authority authority hauthority
    have hcharacter := ha.characters mark hmem
    simp only [List.mem_cons, List.not_mem_nil, or_false] at hmark
    rcases hmark with rfl | rfl | rfl <;> cases hcharacter
  path mark hmark hmem := by
    simp only [List.mem_cons, List.not_mem_nil, or_false] at hmark
    rcases mem_pieces_of_mem '/' hmem with rfl | ⟨s, hs, hmem⟩
    · rcases hmark with heq | heq <;> cases heq
    · rcases hmark with rfl | rfl
      · exact (h.path s hs).not_mem rfl (by decide) rfl hmem
      · exact (h.path s hs).not_mem rfl (by decide) rfl hmem
  rooted := h.rooted
  bare := h.bare
  query query hquery := (h.query query hquery).not_mem rfl (by decide) rfl

/-! ## Origins -/

/-- A scheme and an authority, and nothing behind them. -/
def origin (scheme authority : List Char) : Uri := ⟨scheme, some authority, [], none, none⟩

theorem text_origin (scheme authority : List Char) :
    (origin scheme authority).text = scheme ++ ':' :: '/' :: '/' :: authority := by
  simp only [text, front, root, origin, marked, Option.elim_some, List.append_nil]

end Uri

end InletRegistry.Net
