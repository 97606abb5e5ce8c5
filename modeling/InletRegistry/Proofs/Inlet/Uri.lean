import InletRegistry.Proofs.Inlet.Naming
import InletRegistry.Proofs.Net.Uri
import InletRegistry.Proofs.Node.Assess

/-!
# Which URIs are valid

What is escaped of an id is what delimits the parts of a URI, and what cannot be seen or is not ASCII.
That is not all that a path must not have: eleven more characters of ASCII may stand in none of its
segments. They are left as they are. So the URI of an entity is one exactly if its id has none of these
characters (`emitted_uri_valid_iff`), whatever else is in it.
-/

namespace InletRegistry

open InletRegistry.Text InletRegistry.Text.Percent InletRegistry.Http InletRegistry.Net
open InletRegistry.Registry

/-! ## Ids in paths -/

/-- The characters that stand in an escaped id as they are, though none of them may stand in a path. -/
def strayCharacters : List Char :=
  ['\x22', '<', '>', '[', '\\', ']', '^', '\x60', '\x7b', '|', '\x7d']

/-- An octet that is not escaped may stand in a path, unless it is one of those characters. -/
theorem isPathCharacter_of_idSafe {b : UInt8} (h : idSafe b = true)
    (hstray : Char.ofNat b.toNat ∉ strayCharacters) :
    Char.ofNat b.toNat ≠ '%' ∧ Uri.isPathCharacter (Char.ofNat b.toNat) = true := by
  have hall : ∀ n < 256, idSafe (UInt8.ofNat n) = true → Char.ofNat n ∉ strayCharacters →
      Char.ofNat n ≠ '%' ∧ Uri.isPathCharacter (Char.ofNat n) = true := by decide +kernel
  apply hall b.toNat b.toNat_lt _ hstray
  rw [UInt8.ofNat_toNat]
  exact h

/-- Each of them is left as it is, and is neither allowed in a path nor part of an escape. -/
theorem stray_unescaped {c : Char} (h : c ∈ strayCharacters) :
    c.toNat < 0x80 ∧ idSafe (UInt8.ofNat c.toNat) = true ∧ Uri.isPathCharacter c = false ∧ c ≠ '%' ∧
      Hex.digit? c = none := by
  have hall : strayCharacters.all (fun d => decide (d.toNat < 0x80) && idSafe (UInt8.ofNat d.toNat) &&
      !Uri.isPathCharacter d && d != '%' && (Hex.digit? d).isNone) = true := by decide
  have hone := List.all_eq_true.mp hall c h
  simp only [Bool.and_eq_true, decide_eq_true_eq, Bool.not_eq_true', bne_iff_ne,
    Option.isNone_iff_eq_none] at hone
  obtain ⟨⟨⟨⟨hascii, hsafe⟩, hmay⟩, hpercent⟩, hdigit⟩ := hone
  exact ⟨hascii, hsafe, hmay, hpercent, hdigit⟩

/-- A character of ASCII that is not escaped is found in the escaped id. -/
theorem mem_encodeId {id : String} {c : Char} (hc : c ∈ id.toList) (hascii : c.toNat < 0x80)
    (hsafe : idSafe (UInt8.ofNat c.toNat) = true) : c ∈ (encodeId id).toList := by
  rw [encodeId, String.toList_ofList, encode_eq_flatMap]
  apply List.mem_flatMap.mpr
  refine ⟨c, hc, ?_⟩
  rw [encodeOctets_of_safe hascii hsafe]
  exact List.mem_singleton_self c

/-- **An escaped id may stand in a path** exactly if the id has none of those characters. -/
theorem spelled_encodeId_iff (id : String) :
    Spelled Uri.isPathCharacter (encodeId id).toList ↔ ∀ c ∈ id.toList, c ∉ strayCharacters := by
  constructor
  · intro h c hc hstray
    obtain ⟨hascii, hsafe, hmay, hpercent, hdigit⟩ := stray_unescaped hstray
    exact h.not_mem hmay hpercent hdigit (mem_encodeId hc hascii hsafe)
  · intro h
    rw [encodeId, String.toList_ofList, encode]
    apply spelled_encodeOctets
    intro b hb hsafe
    apply isPathCharacter_of_idSafe hsafe
    apply h
    exact Utf8.mem_of_mem_encodeList hb (masksEscapes_idSafe.ascii b hsafe)

/-! ## URIs of entities -/

/-- What the URI of an id is put together from. Where there is no authority, its slashes are dropped. -/
def emitted (scheme authority : List Char) (id : String) : Uri :=
  ⟨scheme, if authority = [] then none else some authority,
    '/' :: (collection.toList ++ '/' :: (encodeId id).toList), none, none⟩

section Emitted

variable {scheme authority : List Char} {id : String}

theorem segments_emitted (scheme authority : List Char) (id : String) :
    segments (emitted scheme authority id).path = [[], collection.toList, (encodeId id).toList] := by
  have hcollection : '/' ∉ collection.toList := by decide
  have hpath : (emitted scheme authority id).path =
      [] ++ '/' :: (collection.toList ++ '/' :: (encodeId id).toList) := rfl
  rw [hpath, segments, pieces_append, pieces_append, pieces_of_not_mem hcollection,
    pieces_of_not_mem (slash_not_mem_encodeId id)]
  rfl

theorem dropFinalSlashes_origin (h : '/' ∉ authority) :
    dropFinalSlashes (String.ofList (Uri.origin scheme authority).text) =
      String.ofList (scheme ++ ':' :: if authority = [] then [] else '/' :: '/' :: authority) := by
  rw [Uri.text_origin]
  split
  next hnone =>
    have hslashes : ∀ c ∈ '/' :: '/' :: authority, c = '/' := by
      intro c hc
      rw [hnone] at hc
      have htwo : c ∈ List.replicate 2 '/' := hc
      exact List.eq_of_mem_replicate htwo
    rw [dropFinalSlashes_append (by decide), dropFinalSlashes_of_slashes hslashes]
    rfl
  next hsome =>
    obtain ⟨front, last, rfl⟩ : ∃ front last, authority = front ++ [last] :=
      ⟨authority.dropLast, authority.getLast hsome, (List.dropLast_concat_getLast hsome).symm⟩
    have hlast : last ≠ '/' := fun heq => h (heq ▸ List.mem_concat_self)
    have hwhole : scheme ++ ':' :: '/' :: '/' :: (front ++ [last]) =
        (scheme ++ ':' :: '/' :: '/' :: front) ++ [last] := by
      simp only [List.append_assoc, List.cons_append]
    rw [hwhole, dropFinalSlashes_append hlast, dropFinalSlashes_of_slashes (fun c hc => by cases hc)]
    rfl

theorem text_emitted (h : '/' ∉ authority) :
    (resourceUri (String.ofList (Uri.origin scheme authority).text) collection id).toList =
      (emitted scheme authority id).text := by
  rw [toList_resourceUri, dropFinalSlashes_origin h, String.toList_ofList]
  simp only [Uri.text, Uri.front, Uri.root, Uri.marked, emitted, List.append_nil, List.append_assoc,
    List.cons_append]
  split <;> rfl

/-- Its authority, if it has one, is that of the base. -/
theorem authority_emitted {written : List Char}
    (h : (emitted scheme authority id).authority = some written) :
    (Uri.origin scheme authority).authority = some written := by
  simp only [emitted] at h
  split at h
  next => cases h
  next => exact h

theorem emitted_apart (h : (Uri.origin scheme authority).Valid) (id : String) :
    (emitted scheme authority id).Apart where
  scheme := h.apart.scheme
  authority _ hwritten := h.apart.authority _ (authority_emitted hwritten)
  path mark hmark hmem := by
    simp only [List.mem_cons, List.not_mem_nil, or_false] at hmark
    rcases mem_pieces_of_mem '/' hmem with rfl | ⟨s, hs, hmem⟩
    · rcases hmark with heq | heq <;> cases heq
    · have hs : s ∈ segments (emitted scheme authority id).path := hs
      rw [segments_emitted] at hs
      simp only [List.mem_cons, List.not_mem_nil, or_false] at hs
      rcases hs with rfl | rfl | rfl
      · cases hmem
      · rcases hmark with rfl | rfl
        · exact absurd hmem (by decide)
        · exact absurd hmem (by decide)
      · rcases hmark with rfl | rfl
        · cases isIdCharacter_of_mem_encodeId hmem
        · cases isIdCharacter_of_mem_encodeId hmem
  rooted _ c hc := (Option.some.inj hc).symm
  bare _ := by
    have hfirst : collection.toList.head? = some 'i' := by decide
    rintro ⟨more, hmore⟩
    have hrest := congrArg List.head? (List.cons.inj hmore).2
    rw [List.head?_append, hfirst] at hrest
    cases hrest
  query _ hquery := by cases hquery

theorem emitted_valid (h : (Uri.origin scheme authority).Valid)
    (hid : Spelled Uri.isPathCharacter (encodeId id).toList) : (emitted scheme authority id).Valid where
  scheme := h.scheme
  authority _ hwritten := h.authority _ (authority_emitted hwritten)
  path s hs := by
    rw [segments_emitted] at hs
    simp only [List.mem_cons, List.not_mem_nil, or_false] at hs
    rcases hs with rfl | rfl | rfl
    · exact .nil
    · exact Spelled.of_all (by decide)
    · exact hid
  rooted := (emitted_apart h id).rooted
  bare := (emitted_apart h id).bare
  query _ hquery := by cases hquery
  fragment _ hfragment := by cases hfragment

/-- What is put together is valid exactly if the id has none of those characters. -/
theorem emitted_valid_iff (h : (Uri.origin scheme authority).Valid) (id : String) :
    (emitted scheme authority id).Valid ↔ ∀ c ∈ id.toList, c ∉ strayCharacters := by
  rw [← spelled_encodeId_iff]
  constructor
  · intro hvalid
    apply hvalid.path
    rw [segments_emitted]
    exact List.mem_of_getLast? rfl
  · exact emitted_valid h

/-- The text of an id's URI is that of a valid one only if it was put together from that. -/
theorem eq_emitted (h : (Uri.origin scheme authority).Valid) {u : Uri} (hu : u.Valid)
    (htext : u.text = (emitted scheme authority id).text) : u = emitted scheme authority id :=
  hu.apart.eq_of_text_eq (emitted_apart h id) htext

end Emitted

/-- **An entity has a valid URI exactly if its id has no stray character.** The base of a node is a scheme
and an authority, as URIs have them, and an id is not empty. Then the node returns an entity with a URI,
and there is a segment that is read as the id. A request for the path of the collection and this segment
is one for the inlet. The URI is valid if and only if the id has none of the eleven characters that are
neither escaped nor allowed in a path; and if it is valid, it has that path, and the segment is spelled in
what a path may have. -/
theorem emitted_uri_valid_iff {n : Node} {scheme authority : List Char}
    (hbase : n.baseUrl = String.ofList (Uri.origin scheme authority).text)
    (hvalid : (Uri.origin scheme authority).Valid) (v : Versioned Inlet) (hid : v.state.id ≠ "") :
    ∃ (uri : String) (segment : List Char),
      ((n.respond (.ok v)).body = (Entity.ofVersioned n.baseUrl v).toJson.octets ∧
        (Entity.ofVersioned n.baseUrl v).uri = some uri) ∧
      (segment ≠ [] ∧ decodeId segment = .ok v.state.id ∧
        Route.ofPath? (String.ofList ("/input-ports/".toList ++ segment)) = some (.inlet segment)) ∧
      ((∃ u : Uri, u.Valid ∧ u.text = uri.toList) ↔ ∀ c ∈ v.state.id.toList, c ∉ strayCharacters) ∧
      ∀ u : Uri, u.Valid → u.text = uri.toList →
        u.path = "/input-ports/".toList ++ segment ∧ Spelled Uri.isPathCharacter segment := by
  have hslash : '/' ∉ authority := hvalid.apart.authority authority rfl '/' (by decide)
  have htext : (resourceUri n.baseUrl collection v.state.id).toList =
      (emitted scheme authority v.state.id).text := by
    rw [hbase, text_emitted hslash]
  have hpath : (emitted scheme authority v.state.id).path =
      "/input-ports/".toList ++ (encodeId v.state.id).toList := rfl
  have hsome : (encodeId v.state.id).toList ≠ [] := by
    rw [encodeId, String.toList_ofList, Ne, encode_eq_nil_iff]
    intro hnil
    apply hid
    exact String.toList_inj.mp hnil
  refine ⟨_, (encodeId v.state.id).toList, ⟨?_, rfl⟩, ⟨hsome, decodeId_encodeId v.state.id, ?_⟩, ?_,
    fun u hu hsame => ?_⟩
  · exact Node.sign_body n _
  · rw [Route.ofPath?_eq_inlet_iff, String.toList_ofList, ← hpath]
    exact ⟨segments_emitted scheme authority v.state.id, hsome⟩
  · rw [htext, ← emitted_valid_iff hvalid]
    constructor
    · rintro ⟨u, hu, hsame⟩
      rw [← eq_emitted hvalid hu hsame]
      exact hu
    · intro hemitted
      exact ⟨_, hemitted, rfl⟩
  · rw [htext] at hsame
    obtain rfl := eq_emitted hvalid hu hsame
    rw [emitted_valid_iff hvalid, ← spelled_encodeId_iff] at hu
    exact ⟨hpath, hu⟩

/-- The base of a node that has not been told another. -/
theorem default_base_valid : (Uri.origin "http".toList "localhost:8080".toList).Valid where
  scheme := ⟨⟨'h', by decide, by decide⟩, List.all_eq_true.mp (by decide)⟩
  authority authority hauthority := by
    obtain rfl := Option.some.inj hauthority
    have hhost : Uri.IsHost "localhost".toList := .name (Spelled.of_all (by decide))
    have hport : ∀ c ∈ "8080".toList, c.isDigit = true := List.all_eq_true.mp (by decide)
    refine ⟨⟨none, "localhost".toList, some "8080".toList⟩, ⟨?_, hhost, ?_⟩, by decide⟩
    · rintro _ huser
      cases huser
    · intro port hsome
      obtain rfl := Option.some.inj hsome
      exact hport
  path s hs := by
    obtain rfl := List.mem_singleton.mp hs
    exact .nil
  rooted _ c hc := by cases hc
  bare hnone := by cases hnone
  query _ hquery := by cases hquery
  fragment _ hfragment := by cases hfragment

/-- An inlet in its first version. -/
def firstOf (id : String) : Versioned Inlet := ⟨⟨id, "in", "", .stopped, 1⟩, ⟨some 0, "", id⟩⟩

/-- An id with a blank, a slash and a letter that is not of ASCII has a valid URI. -/
theorem emitted_uri_valid_iff_blank :
    ∃ (u : Uri) (segment : List Char), u.Valid ∧
      u.text = "http://localhost:8080/input-ports/caf%C3%A9%20%2F%201".toList ∧
      u.path = "/input-ports/".toList ++ segment ∧ decodeId segment = .ok "café / 1" := by
  have hid : (firstOf "café / 1").state.id ≠ "" := by decide
  have hplain : ∀ c ∈ (firstOf "café / 1").state.id.toList, c ∉ strayCharacters := by
    have hall : "café / 1".toList.all (fun c => decide (c ∉ strayCharacters)) = true := by decide
    intro c hc
    exact of_decide_eq_true (List.all_eq_true.mp hall c hc)
  obtain ⟨uri, segment, ⟨-, huri⟩, ⟨-, hdecode, -⟩, hiff, hparts⟩ :=
    emitted_uri_valid_iff (n := .ofConfig Config.default 0) rfl default_base_valid
      (firstOf "café / 1") hid
  obtain ⟨u, hu, htext⟩ := hiff.mpr hplain
  have hemitted : uri.toList = "http://localhost:8080/input-ports/caf%C3%A9%20%2F%201".toList := by
    rw [← Option.some.inj huri]
    decide +kernel
  exact ⟨u, segment, hu, htext.trans hemitted, (hparts u hu htext).1, hdecode⟩

/-- It is not so that every entity has a valid URI. -/
theorem not_every_emitted_uri_valid :
    ¬ ∀ (n : Node) (scheme authority : List Char),
      n.baseUrl = String.ofList (Uri.origin scheme authority).text →
      (Uri.origin scheme authority).Valid → ∀ v : Versioned Inlet, v.state.id ≠ "" →
        ∃ u : Uri, u.Valid ∧ (Entity.ofVersioned n.baseUrl v).uri = some (String.ofList u.text) := by
  intro h
  have hid : (firstOf "a<b|c").state.id ≠ "" := by decide
  obtain ⟨u, hu, huri⟩ := h (.ofConfig Config.default 0) _ _ rfl default_base_valid (firstOf "a<b|c") hid
  have hslash : '/' ∉ "localhost:8080".toList := by decide
  have htext : u.text = (emitted "http".toList "localhost:8080".toList "a<b|c").text := by
    rw [← text_emitted hslash, ← String.toList_ofList (l := u.text)]
    exact congrArg String.toList (Option.some.inj huri).symm
  have hemitted := eq_emitted default_base_valid hu htext
  rw [hemitted, emitted_valid_iff default_base_valid] at hu
  exact hu '<' (by decide) (by decide)

end InletRegistry
