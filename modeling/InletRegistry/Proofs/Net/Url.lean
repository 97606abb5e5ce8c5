import InletRegistry.Net.Url
import InletRegistry.Proofs.Text.Form
import Mathlib.Data.List.TakeWhile

/-!
# Taking a URL apart

The text of a URL of HTTP is an origin, a path and what follows the path: a query, a fragment, both or
neither. `parse?_text` says what is read of it: the origin alone decides whether the text is a URL and
which host it names, and the path and the query come to their one forms apart from it.

A path comes to its one form by segments (`pieces_pathText`). To resolve them leaves some of them out and
may put an empty one behind the last (`resolve_sublist`); if none of them is one point or two, it leaves
all of them.
-/

namespace InletRegistry.Net.Url

open InletRegistry.Text InletRegistry.Text.Percent

variable {cs front rest s : List Char} {mark c : Char}

/-! ## What may be escaped -/

theorem toNat_lt_of_isPlainBut {others : List Char} {b : UInt8} (h : isPlainBut others b = true) :
    b.toNat < 0x80 := by
  simp only [isPlainBut, Bool.and_eq_true, decide_eq_true_eq] at h
  have hlt : b.toNat < 0x7F := h.1.2
  omega

/-- Escapes may stand in a path. -/
theorem leavesEscapes_pathSafe : LeavesEscapes pathSafe where
  ascii _ := toNat_lt_of_isPlainBut
  percent := by decide
  digits := by decide +kernel

/-- A form may stand in a query. -/
theorem leavesForms_querySafe : Form.LeavesForms (querySafe true) where
  escapes := ⟨fun _ => toNat_lt_of_isPlainBut, by decide, by decide +kernel⟩
  ampersand := ⟨by decide, by decide, by decide, by decide⟩
  equals := ⟨by decide, by decide, by decide, by decide⟩
  plus := ⟨by decide, by decide, by decide, by decide⟩

/-! ## Splitting -/

theorem splitFirst_of_not_mem (h : mark ∉ cs) : splitFirst mark cs = (cs, none) := by
  have hnil : cs.dropWhile (· ≠ mark) = [] :=
    List.dropWhile_eq_nil_iff.mpr fun c hc => decide_eq_true fun heq => h (heq ▸ hc)
  simp only [splitFirst, hnil]

/-- A mark that has no part in the beginning splits what follows it. -/
theorem splitFirst_append (h : mark ∉ front) :
    splitFirst mark (front ++ rest) = (front ++ (splitFirst mark rest).1, (splitFirst mark rest).2) := by
  have hfront : ∀ c ∈ front, decide (c ≠ mark) = true := fun c hc =>
    decide_eq_true fun heq => h (heq ▸ hc)
  simp only [splitFirst, List.dropWhile_append_of_pos hfront, List.takeWhile_append_of_pos hfront]
  cases rest.dropWhile (· ≠ mark) <;> rfl

theorem splitFirst_cons_self : splitFirst mark (mark :: rest) = ([], some rest) := by
  simp [splitFirst]

/-- A text in which everything can be seen is clean. -/
theorem cleaned_of_visible (h : ∀ c ∈ cs, 0x20 < c.toNat) : cleaned cs = cs := by
  have hnone : ∀ l : List Char, (∀ c ∈ l, 0x20 < c.toNat) →
      l.dropWhile (fun c => decide (c.toNat ≤ 0x20)) = l := by
    intro l hl
    cases l with
    | nil => rfl
    | cons c l =>
      have hc := hl c List.mem_cons_self
      exact List.dropWhile_cons_of_neg (by simpa using hc)
  have hback : ∀ c ∈ cs.reverse, 0x20 < c.toNat := fun c hc => h c (List.mem_reverse.mp hc)
  simp only [cleaned, hnone cs h, hnone _ hback, List.reverse_reverse]
  refine List.filter_eq_self.mpr fun c hc => ?_
  have hvisible := h c hc
  have hne : ∀ d : Char, d.toNat ≤ 0x20 → c ≠ d := fun d hd heq => by
    rw [heq] at hvisible
    omega
  simp only [hne '\t' (by decide), hne '\n' (by decide), hne '\r' (by decide), ne_eq, not_false_eq_true,
    decide_true, Bool.and_self]

/-! ## Paths -/

theorem pathPieces_append (front rest : List Char) :
    pathPieces true (front ++ '/' :: rest) = pathPieces true front ++ pathPieces true rest := by
  simp only [pathPieces, ↓reduceIte, List.map_append, List.map_cons]
  rw [if_neg (by decide), pieces_append]

/-- Where there is no slash, a backslash separates. -/
theorem pathPieces_of_not_mem (h : '/' ∉ cs) : pathPieces true cs = pieces '\\' cs := by
  simp only [pathPieces, ↓reduceIte]
  induction cs with
  | nil => rfl
  | cons c cs ih =>
    have hrest := ih fun hmem => h (List.mem_cons_of_mem c hmem)
    have hslash : c ≠ '/' := fun heq => h (heq ▸ List.mem_cons_self)
    by_cases hc : c = '\\'
    · rw [List.map_cons, if_pos hc, pieces, if_pos rfl, hrest, pieces, if_pos hc]
    · rw [List.map_cons, if_neg hc, pieces, if_neg hslash, hrest, pieces, if_neg hc]

/-- There is nothing between slashes alone. -/
theorem eq_nil_of_mem_pathPieces (hslashes : ∀ c ∈ cs, c = '/') {s : List Char}
    (hs : s ∈ pathPieces true cs) : s = [] := by
  induction cs with
  | nil => exact List.mem_singleton.mp hs
  | cons c cs ih =>
    obtain rfl := hslashes c List.mem_cons_self
    have hpieces : pathPieces true ('/' :: cs) = [] :: pathPieces true cs := pathPieces_append [] cs
    rw [hpieces] at hs
    rcases List.mem_cons.mp hs with rfl | hmore
    · rfl
    · exact ih (fun c hc => hslashes c (List.mem_cons_of_mem _ hc)) hmore

/-- To resolve segments is to leave some of them out, and maybe to go on behind the last one. -/
theorem resolve_sublist (done segments : List (List Char)) :
    (resolve done segments).Sublist (done.reverse ++ segments ++ [[]]) := by
  induction segments generalizing done with
  | nil =>
    rw [resolve, List.append_nil]
    exact List.sublist_append_left _ _
  | cons s segments ih =>
    -- A segment of points is left out, with others or alone.
    have hpoints : ∀ kept : List (List Char), kept.Sublist done →
        (resolve (if segments = [] then [] :: kept else kept) segments).Sublist
          (done.reverse ++ s :: segments ++ [[]]) := by
      intro kept hkept
      split
      next hnil =>
        rw [hnil, resolve, List.reverse_cons]
        exact (hkept.reverse.trans (List.sublist_append_left _ [s])).append (List.Sublist.refl [[]])
      next =>
        have hrest := ih kept
        rw [List.append_assoc] at hrest ⊢
        exact hrest.trans (hkept.reverse.append (List.sublist_cons_self s _))
    unfold resolve
    simp only
    split
    · exact hpoints _ (List.drop_sublist 1 done)
    · split
      · exact hpoints _ (List.Sublist.refl done)
      · have hrest := ih (s :: done)
        rwa [List.reverse_cons, List.append_assoc _ [s], List.singleton_append] at hrest

/-- A segment in front of which nothing has to be resolved. -/
theorem resolve_cons {done segments : List (List Char)} {s : List Char}
    (h : pointed s ≠ ['.', '.'] ∧ pointed s ≠ ['.']) :
    resolve done (s :: segments) = resolve (s :: done) segments := by
  rw [resolve, if_neg h.1, if_neg h.2]

theorem resolve_ne_nil {done segments : List (List Char)} (h : segments ≠ []) :
    resolve done segments ≠ [] := by
  induction segments generalizing done with
  | nil => exact absurd rfl h
  | cons s segments ih =>
    have hmore : ∀ kept : List (List Char), (segments = [] → kept ≠ []) →
        resolve kept segments ≠ [] := by
      intro kept hkept
      cases hsegments : segments with
      | nil => exact fun hnil => hkept hsegments (List.reverse_eq_nil_iff.mp hnil)
      | cons t segments => exact hsegments ▸ ih (hsegments ▸ List.cons_ne_nil t segments)
    have hends : ∀ kept : List (List Char), segments = [] →
        (if segments = [] then [] :: kept else kept) ≠ [] := fun kept hnil => by
      rw [if_pos hnil]
      exact List.cons_ne_nil [] kept
    unfold resolve
    simp only
    split
    · exact hmore _ (hends _)
    · split
      · exact hmore _ (hends _)
      · exact hmore _ fun _ => List.cons_ne_nil s done

theorem pathPieces_ne_nil (cs : List Char) : pathPieces true cs ≠ [] := pieces_ne_nil '/' _

/-- No path is written as the path of a single slash. -/
theorem pathText_nil : pathText true [] = pathText true ['/'] := rfl

/-- The segments of a path are what follows its slashes. -/
theorem pathText_cons (cs : List Char) :
    pathText true ('/' :: cs) =
      (resolve [] (pathPieces true cs)).flatMap fun s => '/' :: encode pathSafe s := by
  have hpieces : pathPieces true ('/' :: cs) = [] :: pathPieces true cs := pathPieces_append [] cs
  cases hsegments : pathPieces true cs with
  | nil => exact absurd hsegments (pathPieces_ne_nil cs)
  | cons s segments => simp only [pathText, hpieces, hsegments]

theorem pathText_cons_eq (cs : List Char) : ∃ more, pathText true ('/' :: cs) = '/' :: more := by
  rw [pathText_cons]
  cases hresolved : resolve [] (pathPieces true cs) with
  | nil => exact absurd hresolved (resolve_ne_nil (pathPieces_ne_nil cs))
  | cons s segments => exact ⟨_, rfl⟩

/-- A slash has no part in a segment. -/
theorem not_mem_of_mem_resolve {s : List Char} (h : s ∈ resolve [] (pathPieces true cs)) : '/' ∉ s := by
  have hmem := (resolve_sublist [] (pathPieces true cs)).subset h
  rcases List.mem_append.mp hmem with hpiece | hnil
  · exact not_mem_of_mem_pieces hpiece
  · rw [List.mem_singleton.mp hnil]
    exact List.not_mem_nil

/-- **The segments of a path in its one form** are the segments that are left of it, each escaped. -/
theorem pieces_pathText (cs : List Char) : pieces '/' (pathText true ('/' :: cs)) =
    [] :: (resolve [] (pathPieces true cs)).map (encode pathSafe) := by
  have hslash : Form.IsMark pathSafe '/' := ⟨by decide, by decide, by decide, by decide⟩
  rw [pathText_cons, pieces_flatMap_cons]
  intro s hs hmem
  rw [encode_eq_flatMap] at hmem
  obtain ⟨c, hc, hslashed⟩ := List.mem_flatMap.mp hmem
  have hne : c ≠ '/' := fun heq => not_mem_of_mem_resolve hs (heq ▸ hc)
  exact hslash.not_mem_escaped leavesEscapes_pathSafe hne hslashed

/-! ## What can be seen in it -/

/-- What is escaped can be seen if no octet that cannot is safe. -/
theorem visible_of_mem_encode {safe : UInt8 → Bool} (h : LeavesEscapes safe)
    (hunseen : ∀ n ≤ 0x20, safe (UInt8.ofNat n) = false) (hc : c ∈ encode safe cs) : 0x20 < c.toNat := by
  by_contra hle
  have hlow : c.toNat ≤ 0x20 := Nat.not_lt.mp hle
  exact not_mem_encode h (by omega) (hunseen _ hlow) hc

/-- Nothing in a path in its one form ends it. -/
theorem visible_of_mem_pathText (hc : c ∈ pathText true ('/' :: cs)) :
    0x20 < c.toNat ∧ c ≠ '?' ∧ c ≠ '#' := by
  rw [pathText_cons] at hc
  obtain ⟨s, -, hmem⟩ := List.mem_flatMap.mp hc
  rcases List.mem_cons.mp hmem with rfl | hs
  · decide
  · refine ⟨visible_of_mem_encode leavesEscapes_pathSafe (by decide +kernel) hs, ?_, ?_⟩
    · rintro rfl
      exact not_mem_encode leavesEscapes_pathSafe (by decide) (by decide) hs
    · rintro rfl
      exact not_mem_encode leavesEscapes_pathSafe (by decide) (by decide) hs

/-- Nor does anything in a query. -/
theorem visible_of_mem_query (hc : c ∈ encode (querySafe true) cs) : 0x20 < c.toNat ∧ c ≠ '#' := by
  refine ⟨visible_of_mem_encode leavesForms_querySafe.escapes (by decide +kernel) hc, ?_⟩
  rintro rfl
  exact not_mem_encode leavesForms_querySafe.escapes (by decide) (by decide) hc

end InletRegistry.Net.Url

namespace InletRegistry.Net

open InletRegistry.Text

/-- How the text of a URL of HTTP begins: a scheme, slashes and an authority. -/
structure Origin where
  scheme : List Char
  slashes : List Char
  authority : List Char
  isHttp : scheme.map Url.lower = "http".toList ∨ scheme.map Url.lower = "https".toList
  slashed : ∀ c ∈ slashes, Url.isSlash c = true
  named : authority ≠ []
  /-- Nothing in it ends the authority. -/
  whole : ∀ c ∈ authority, 0x20 < c.toNat ∧ Url.isSlash c = false ∧ c ≠ '?' ∧ c ≠ '#'

namespace Origin

variable {o : Origin} {c : Char} {path rest : List Char}

def text (o : Origin) : List Char := o.scheme ++ ':' :: (o.slashes ++ o.authority)

/-- The number of a service that the scheme implies. -/
def implied (o : Origin) : Option Nat := (Url.webSchemes.lookup (o.scheme.map Url.lower)).getD none

theorem isLetter_of_lower (h : Url.isLetter (Url.lower c) = true) : Url.isLetter c = true := by
  by_cases hupper : 'A' ≤ c ∧ c ≤ 'Z'
  · simp only [Url.isLetter, hupper, decide_true, Bool.and_self, Bool.or_true]
  · rwa [Url.lower, if_neg hupper] at h

theorem isLetter_of_mem_scheme (h : c ∈ o.scheme) : Url.isLetter c = true := by
  have hmem := List.mem_map_of_mem (f := Url.lower) h
  refine isLetter_of_lower ?_
  rcases o.isHttp with heq | heq
  · rw [heq] at hmem
    exact List.all_eq_true.mp (by decide : "http".toList.all Url.isLetter = true) _ hmem
  · rw [heq] at hmem
    exact List.all_eq_true.mp (by decide : "https".toList.all Url.isLetter = true) _ hmem

theorem visible_of_isLetter (h : Url.isLetter c = true) : 0x40 < c.toNat := by
  have hle : ∀ d : Char, d ≤ c → d.toNat ≤ c.toNat := fun d hd => hd
  simp only [Url.isLetter, Bool.or_eq_true, Bool.and_eq_true, decide_eq_true_eq] at h
  rcases h with ⟨hlow, -⟩ | ⟨hlow, -⟩
  · exact Nat.lt_of_lt_of_le (by decide) (hle 'a' hlow)
  · exact Nat.lt_of_lt_of_le (by decide) (hle 'A' hlow)

/-- Nothing in an origin ends it. -/
theorem visible (h : c ∈ o.text) : 0x20 < c.toNat ∧ c ≠ '?' ∧ c ≠ '#' := by
  simp only [text, List.mem_append, List.mem_cons] at h
  rcases h with hscheme | rfl | hslash | hauthority
  · have hlarge := visible_of_isLetter (isLetter_of_mem_scheme hscheme)
    refine ⟨by omega, ?_, ?_⟩ <;>
    · rintro rfl
      exact absurd hlarge (by decide)
  · decide
  · have hslashed := o.slashed c hslash
    simp only [Url.isSlash, Bool.or_eq_true, decide_eq_true_eq] at hslashed
    rcases hslashed with rfl | rfl <;> decide
  · obtain ⟨hseen, -, hquery, hfragment⟩ := o.whole c hauthority
    exact ⟨hseen, hquery, hfragment⟩

theorem scheme_ne_nil (o : Origin) : o.scheme ≠ [] := by
  intro hnil
  have hhttp := o.isHttp
  rw [hnil] at hhttp
  exact absurd hhttp (by decide)

/-- The scheme of an origin is read off it. -/
theorem scheme?_text (o : Origin) (path : List Char) :
    Url.scheme? (o.text ++ path) = some (o.scheme.map Url.lower, o.slashes ++ o.authority ++ path) := by
  have hletters : ∀ c ∈ o.scheme,
      (Url.isLetter c || Decimal.isDigit c || c = '+' || c = '-' || c = '.') = true := fun c hc => by
    rw [isLetter_of_mem_scheme hc]
    rfl
  have htext : o.text ++ path = o.scheme ++ ':' :: (o.slashes ++ o.authority ++ path) := by
    simp only [text, List.append_assoc, List.cons_append]
  have hname : ((o.text ++ path).takeWhile fun c =>
      Url.isLetter c || Decimal.isDigit c || c = '+' || c = '-' || c = '.') = o.scheme := by
    rw [htext, List.takeWhile_append_of_pos hletters, List.takeWhile_cons_of_neg (by decide),
      List.append_nil]
  have hdrop : (o.text ++ path).drop o.scheme.length = ':' :: (o.slashes ++ o.authority ++ path) := by
    rw [htext, List.drop_left]
  simp only [Url.scheme?, hname, hdrop]
  cases hscheme : o.scheme with
  | nil => exact absurd hscheme o.scheme_ne_nil
  | cons c cs =>
    have hc : Url.isLetter c = true := isLetter_of_mem_scheme (hscheme ▸ List.mem_cons_self)
    simp only [hc, ↓reduceIte]

/-- The schemes of HTTP are schemes of the web, and none of files. -/
theorem lookup_scheme (o : Origin) :
    Url.webSchemes.lookup (o.scheme.map Url.lower) = some o.implied ∧
      o.scheme.map Url.lower ≠ "file".toList := by
  unfold implied
  rcases o.isHttp with heq | heq <;>
  · rw [heq]
    decide

/-- What follows the slashes of an origin is its authority, up to the path. -/
theorem authority_append (o : Origin) (hpath : path = [] ∨ ∃ more, path = '/' :: more) :
    (o.slashes ++ o.authority ++ path).dropWhile Url.isSlash = o.authority ++ path ∧
      (o.authority ++ path).takeWhile (!Url.isSlash ·) = o.authority ∧
      (o.authority ++ path).dropWhile (!Url.isSlash ·) = path := by
  have hnone : ∀ c ∈ o.authority, (!Url.isSlash c) = true := fun c hc => by
    rw [(o.whole c hc).2.1]
    rfl
  have hstop : path.takeWhile (!Url.isSlash ·) = [] ∧ path.dropWhile (!Url.isSlash ·) = path := by
    rcases hpath with rfl | ⟨more, rfl⟩ <;> exact ⟨rfl, rfl⟩
  refine ⟨?_, ?_, ?_⟩
  · rw [List.append_assoc, List.dropWhile_append_of_pos o.slashed]
    cases hauthority : o.authority with
    | nil => exact absurd hauthority o.named
    | cons c cs =>
      have hc := (o.whole c (hauthority ▸ List.mem_cons_self)).2.1
      exact List.dropWhile_cons_of_neg (by rw [hc]; exact Bool.false_ne_true)
  · rw [List.takeWhile_append_of_pos hnone, hstop.1, List.append_nil]
  · rw [List.dropWhile_append_of_pos hnone, hstop.2]

/-- What may follow an origin: a path, and then a query or a fragment or both. -/
structure Continues (path rest : List Char) : Prop where
  begins : path = [] ∨ ∃ more, path = '/' :: more
  pathSeen : ∀ c ∈ path, 0x20 < c.toNat ∧ c ≠ '?' ∧ c ≠ '#'
  restSeen : ∀ c ∈ rest, 0x20 < c.toNat
  ends : (Url.splitFirst '?' (Url.splitFirst '#' rest).1).1 = []

/-- **What is read of a text that begins with an origin.** The origin alone decides whether it is a URL,
and of which host. -/
theorem parse?_text (o : Origin) (h : Continues path rest) :
    Url.parse? (String.ofList (o.text ++ path ++ rest)) =
      (Url.authority? true o.implied o.authority).map fun place =>
        ⟨o.scheme.map Url.lower, some place.1, place.2, Url.pathText true path,
          (Url.splitFirst '?' (Url.splitFirst '#' rest).1).2.map (Percent.encode (Url.querySafe true)),
          (Url.splitFirst '#' rest).2.map (Percent.encode Url.fragmentSafe)⟩ := by
  have hfront : ∀ c ∈ o.text ++ path, 0x20 < c.toNat ∧ c ≠ '?' ∧ c ≠ '#' := fun c hc =>
    (List.mem_append.mp hc).elim visible (h.pathSeen c)
  have hclean : Url.cleaned (o.text ++ path ++ rest) = o.text ++ path ++ rest :=
    Url.cleaned_of_visible fun c hc => (List.mem_append.mp hc).elim (fun h => (hfront c h).1) (h.restSeen c)
  have hfragment : '#' ∉ o.text ++ path := fun hmem => (hfront _ hmem).2.2 rfl
  have hquery : '?' ∉ o.text ++ path := fun hmem => (hfront _ hmem).2.1 rfl
  obtain ⟨hslashes, htake, hdrop⟩ := o.authority_append h.begins
  obtain ⟨hlookup, hfile⟩ := o.lookup_scheme
  unfold Url.parse?
  simp only [String.toList_ofList, hclean, Url.splitFirst_append hfragment, Url.splitFirst_append hquery,
    h.ends, List.append_nil, scheme?_text, Option.bind_some, hlookup, hfile, ↓reduceIte, hslashes, htake,
    hdrop]

/-- **Requests can be sent to all URLs of an origin or to none of them**, whatever path and query
follow it. -/
theorem parse?_of_isHttp {base : Url} {path' rest' : List Char} (h : Continues path rest)
    (hbase : Url.parse? (String.ofList (o.text ++ path ++ rest)) = some base)
    (hhttp : base.isHttp = true) (h' : Continues path' rest') :
    ∃ url, Url.parse? (String.ofList (o.text ++ path' ++ rest')) = some url ∧ url.isHttp = true ∧
      url.path = Url.pathText true ('/' :: path'.drop 1) ∧
      url.query =
        (Url.splitFirst '?' (Url.splitFirst '#' rest').1).2.map (Percent.encode (Url.querySafe true)) := by
  rw [parse?_text o h] at hbase
  obtain ⟨place, hplace, rfl⟩ := Option.map_eq_some_iff.mp hbase
  have hpath : Url.pathText true path' = Url.pathText true ('/' :: path'.drop 1) := by
    rcases h'.begins with rfl | ⟨more, rfl⟩
    · exact Url.pathText_nil
    · rfl
  rw [parse?_text o h', hplace]
  exact ⟨_, rfl, hhttp, hpath, rfl⟩

end Origin

end InletRegistry.Net
