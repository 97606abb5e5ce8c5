import InletRegistry.Proofs.Fleet.Hops
import InletRegistry.Proofs.Http.Target
import InletRegistry.Proofs.Net.Url
import Mathlib.Data.Bool.AllAny

/-!
# Where a hop leads

What a follower sends on is put behind the address of the coordinator, and the whole is a URL. So the
path and the query of a request are read a second time, and by other rules: segments of points are
resolved, a backslash is a slash, and everything goes to the query or to the fragment of the address if
it has one. What else reading a URL does, that is to escape characters, leaves ids and parameters alone.

`addressed_alike_iff` says for which requests the coordinator is asked about the same inlet in the end.
-/

namespace InletRegistry

open InletRegistry.Http InletRegistry.Net InletRegistry.Text InletRegistry.Fleet

/-- That a request is routed to an inlet, and the parameters in its query. -/
def Http.Request.Addresses (r : Request) (id : String) (parameters : List (String × String)) : Prop :=
  ∃ segment, Route.ofPath? r.target.path = some (.inlet segment) ∧ decodeId segment = .ok id ∧
    Form.decode (r.target.query.getD "") = parameters

namespace Routing

/-- An address of a coordinator that has no path of its own. -/
structure Address extends Origin where
  /-- The slashes at its end. -/
  root : List Char
  bare : ∀ c ∈ root, c = '/'
  /-- A query or a fragment, with the mark in front of it. -/
  tail : List Char
  tailed : ∀ c ∈ tail.head?, c = '?' ∨ c = '#'
  seen : ∀ c ∈ tail, 0x20 < c.toNat

namespace Address

variable {a : Address} {mark : Char} {more : List Char}

def text (a : Address) : String := String.ofList (a.toOrigin.text ++ a.root ++ a.tail)

/-- An address without a query and a fragment comes to its origin. -/
theorem dropFinalSlashes_text_of_bare (h : a.tail = []) :
    dropFinalSlashes a.text = String.ofList a.toOrigin.text := by
  have hlast : a.authority.getLast a.named ≠ '/' := fun hslash => by
    have hwhole := (a.whole _ (List.getLast_mem a.named)).2.1
    rw [hslash] at hwhole
    cases hwhole
  have horigin : a.toOrigin.text = a.scheme ++ ':' :: (a.slashes ++ a.authority.dropLast) ++
      [a.authority.getLast a.named] := by
    rw [Origin.text, List.append_assoc, List.cons_append, List.append_assoc,
      List.dropLast_append_getLast a.named]
  rw [text, h, List.append_nil, horigin, List.append_assoc, List.singleton_append,
    dropFinalSlashes_append hlast, dropFinalSlashes_of_slashes a.bare]
  rfl

/-- An address with one of them keeps it. -/
theorem dropFinalSlashes_text_of_tail (h : a.tail = mark :: more) :
    (mark = '?' ∨ mark = '#') ∧ ∃ kept : List Char, (∀ c ∈ kept, 0x20 < c.toNat) ∧
      dropFinalSlashes a.text = String.ofList (a.toOrigin.text ++ a.root ++ mark :: kept) := by
  have hmark : mark = '?' ∨ mark = '#' := a.tailed mark (by rw [h]; rfl)
  refine ⟨hmark, (dropFinalSlashes (String.ofList more)).toList, fun c hc => ?_, ?_⟩
  · have hmore := mem_of_mem_dropFinalSlashes hc
    rw [String.toList_ofList] at hmore
    exact a.seen c (h ▸ List.mem_cons_of_mem mark hmore)
  · rw [text, h, dropFinalSlashes_append]
    rcases hmark with rfl | rfl <;> decide

/-- A root is a path. -/
theorem root_begins (a : Address) : a.root = [] ∨ ∃ more, a.root = '/' :: more := by
  cases hroot : a.root with
  | nil => exact Or.inl rfl
  | cons c more =>
    obtain rfl := a.bare c (hroot ▸ List.mem_cons_self)
    exact Or.inr ⟨more, rfl⟩

/-- What begins with the mark of a query or of a fragment leaves nothing to the path. -/
theorem splitFirst_of_mark {rest : List Char} (h : mark = '?' ∨ mark = '#') :
    (Url.splitFirst '?' (Url.splitFirst '#' (mark :: rest)).1).1 = [] := by
  rcases h with rfl | rfl
  · have hquestion : '#' ∉ ['?'] := by decide
    have hfront : Url.splitFirst '#' (['?'] ++ rest) = _ := Url.splitFirst_append hquestion
    rw [List.singleton_append] at hfront
    rw [hfront, List.singleton_append, Url.splitFirst_cons_self]
  · rw [Url.splitFirst_cons_self]
    rfl

theorem continues_of_mark {rest : List Char} (h : mark = '?' ∨ mark = '#')
    (hrest : ∀ c ∈ rest, 0x20 < c.toNat) : Origin.Continues a.root (mark :: rest) where
  begins := a.root_begins
  pathSeen c hc := by
    rw [a.bare c hc]
    decide
  restSeen c hc := by
    rcases List.mem_cons.mp hc with rfl | hc
    · rcases h with rfl | rfl <;> decide
    · exact hrest c hc
  ends := splitFirst_of_mark h

theorem continues (a : Address) : Origin.Continues a.root a.tail := by
  cases htail : a.tail with
  | nil =>
    refine ⟨a.root_begins, fun c hc => ?_, nofun, rfl⟩
    rw [a.bare c hc]
    decide
  | cons mark more =>
    refine continues_of_mark (a.tailed mark (by rw [htail]; rfl)) fun c hc => a.seen c ?_
    exact htail ▸ List.mem_cons_of_mem mark hc

end Address

/-! ## What arrives -/

section Arriving

variable {u : Url} {r : Request} {id : String} {segment cs : List Char} {query : Option (List Char)}
  {parameters : List (String × String)}

/-- A URL asks for its path and its query. -/
theorem parse_target (hpath : u.path = Url.pathText true ('/' :: cs))
    (hquery : u.query = query.map (Percent.encode (Url.querySafe true))) :
    Target.parse u.target = ⟨String.ofList u.path, u.query.map String.ofList⟩ := by
  obtain ⟨more, hmore⟩ := Url.pathText_cons_eq cs
  have hslash : u.path = '/' :: more := hpath.trans hmore
  have htarget : u.target = (⟨String.ofList u.path, u.query.map String.ofList⟩ : Target).pathAndQuery := by
    have hsome : u.path ≠ [] := hslash ▸ List.cons_ne_nil '/' more
    rw [Url.target, if_neg hsome, ← String.ofList_toList (s := Target.pathAndQuery _),
      Target.toList_pathAndQuery]
    cases u.query with
    | none => simp only [String.toList_ofList, Target.tail, Option.map_none]
    | some q => simp only [String.toList_ofList, Target.tail, Option.map_some]
  rw [htarget]
  refine Target.parse_pathAndQuery ⟨fun c hc => ?_, fun q hq c hc => ?_⟩ ?_
  · rw [String.toList_ofList, hpath] at hc
    exact Url.visible_of_mem_pathText hc
  · rw [hquery, Option.map_map] at hq
    obtain ⟨raw, -, rfl⟩ := Option.map_eq_some_iff.mp hq
    rw [Function.comp, String.toList_ofList] at hc
    exact Url.visible_of_mem_query hc
  · rw [String.toList_ofList, hslash]
    rfl

/-- **What arrives is for an inlet** exactly if two segments are left of its path, of which the first
says so. -/
theorem arriving_addresses_iff (hpath : u.path = Url.pathText true ('/' :: cs))
    (hquery : u.query = query.map (Percent.encode (Url.querySafe true))) :
    (arriving u r).Addresses id parameters ↔ ∃ collection s,
      Url.resolve [] (Url.pathPieces true cs) = [collection, s] ∧
      Percent.encode Url.pathSafe collection = "input-ports".toList ∧ s ≠ [] ∧
      decodeId s = .ok id ∧ Form.decode (String.ofList (query.getD [])) = parameters := by
  have htarget : (arriving u r).target = ⟨String.ofList u.path, u.query.map String.ofList⟩ :=
    parse_target hpath hquery
  obtain ⟨more, hmore⟩ := Url.pathText_cons_eq cs
  have hsome : String.ofList u.path ≠ "" := fun hnil => by
    have hempty : u.path = [] := String.ofList_eq_empty_iff.mp hnil
    rw [hpath, hmore] at hempty
    cases hempty
  have hsegments : segments (arriving u r).target.path.toList =
      [] :: (Url.resolve [] (Url.pathPieces true cs)).map (Percent.encode Url.pathSafe) := by
    rw [htarget, Target.path, if_neg hsome, String.toList_ofList, hpath]
    exact Url.pieces_pathText cs
  have hdecode : ∀ s, decodeId (Percent.encode Url.pathSafe s) = decodeId s := fun s => by
    rw [decodeId, Percent.decode_encode Url.leavesEscapes_pathSafe, decodeId]
  have hform : Form.decode ((arriving u r).target.query.getD "") =
      Form.decode (String.ofList (query.getD [])) := by
    rw [htarget, hquery]
    cases query with
    | none => rfl
    | some q =>
      have hreread := Url.leavesForms_querySafe.decode_encode (String.ofList q)
      rw [String.toList_ofList] at hreread
      exact hreread
  unfold Http.Request.Addresses
  simp only [Route.ofPath?_eq_inlet_iff, hsegments, hform]
  constructor
  · rintro ⟨segment, ⟨hresolved, hne⟩, hid, hparameters⟩
    obtain ⟨collection, rest, hsplit, hcollection, hrest⟩ :=
      List.map_eq_cons_iff.mp (List.cons.inj hresolved).2
    obtain ⟨s, last, rfl, rfl, hlast⟩ := List.map_eq_cons_iff.mp hrest
    obtain rfl := List.map_eq_nil_iff.mp hlast
    exact ⟨collection, s, hsplit, hcollection, fun hnil => hne (Percent.encode_eq_nil_iff.mpr hnil),
      (hdecode s).symm.trans hid, hparameters⟩
  · rintro ⟨collection, s, hsplit, hcollection, hne, hid, hparameters⟩
    refine ⟨Percent.encode Url.pathSafe s, ⟨?_, fun hnil => hne (Percent.encode_eq_nil_iff.mp hnil)⟩,
      (hdecode s).trans hid, hparameters⟩
    rw [hsplit, List.map_cons, List.map_cons, List.map_nil, hcollection]

end Arriving

/-! ## What is left of a path -/

section Inlets

variable {segment : List Char} {id : String}

/-- The segments of the path of an inlet are those that backslashes make of its last one, behind the
first one. -/
theorem resolve_inlet (hslash : '/' ∉ segment) :
    Url.resolve [] (Url.pathPieces true ("input-ports".toList ++ '/' :: segment)) =
      Url.resolve ["input-ports".toList] (pieces '\\' segment) := by
  have hcollection : Url.pathPieces true "input-ports".toList = ["input-ports".toList] := by decide
  rw [Url.pathPieces_append, Url.pathPieces_of_not_mem hslash, hcollection, List.singleton_append,
    Url.resolve_cons (by decide)]

/-- Behind a backslash there is never the whole of an id. -/
theorem not_left_of_backslash (hslash : '/' ∉ segment) (hid : decodeId segment = .ok id)
    (hback : '\\' ∈ segment) {collection s : List Char} (hsome : s ≠ [])
    (hleft : Url.resolve [] (Url.pathPieces true ("input-ports".toList ++ '/' :: segment)) =
      [collection, s]) : decodeId s ≠ .ok id := by
  intro hs
  rw [resolve_inlet hslash] at hleft
  have hsublist := Url.resolve_sublist ["input-ports".toList] (pieces '\\' segment)
  rw [hleft, List.reverse_singleton, List.append_assoc, List.singleton_append] at hsublist
  have hmem : s ∈ pieces '\\' segment := by
    have hlater : s ∈ pieces '\\' segment ++ [[]] := by
      rcases List.sublist_cons_iff.mp hsublist with hrest | ⟨rest, heq, hrest⟩
      · exact hrest.subset (List.mem_cons_of_mem _ List.mem_cons_self)
      · exact hrest.subset ((List.cons.inj heq).2 ▸ List.mem_cons_self)
    exact (List.mem_append.mp hlater).resolve_right fun hnil => hsome (List.mem_singleton.mp hnil)
  have hlt := Percent.length_decode_lt_of_mem_pieces (by decide) (by decide) (by decide) hback hmem
  rw [decodeId_eq_ok_iff.mp hs, decodeId_eq_ok_iff.mp hid] at hlt
  exact Nat.lt_irrefl _ hlt

/-- **What is left of the path of an inlet is for the same inlet** exactly if its last segment has no
backslash in it and is not one of points. -/
theorem left_alike_iff (hslash : '/' ∉ segment) (hsome : segment ≠ [])
    (hid : decodeId segment = .ok id) :
    (∃ collection s,
      Url.resolve [] (Url.pathPieces true ("input-ports".toList ++ '/' :: segment)) = [collection, s] ∧
        Percent.encode Url.pathSafe collection = "input-ports".toList ∧ s ≠ [] ∧ decodeId s = .ok id) ↔
      '\\' ∉ segment ∧ Url.pointed segment ∉ [['.'], ['.', '.']] := by
  constructor
  · rintro ⟨collection, s, hleft, -, hs, hsid⟩
    have hback : '\\' ∉ segment := fun hmem =>
      not_left_of_backslash hslash hid hmem hs hleft hsid
    refine ⟨hback, fun hpoints => ?_⟩
    rw [resolve_inlet hslash, pieces_of_not_mem hback, Url.resolve] at hleft
    simp only [List.mem_cons, List.not_mem_nil, or_false] at hpoints
    rcases hpoints with hone | htwo
    · rw [if_neg (by rw [hone]; decide), if_pos hone] at hleft
      exact hs (List.cons.inj (List.cons.inj hleft).2).1.symm
    · rw [if_pos htwo] at hleft
      cases (List.cons.inj hleft).2
  · rintro ⟨hback, hpoints⟩
    simp only [List.mem_cons, List.not_mem_nil, or_false, not_or] at hpoints
    refine ⟨"input-ports".toList, segment, ?_, by decide, hsome, hid⟩
    rw [resolve_inlet hslash, pieces_of_not_mem hback, Url.resolve_cons ⟨hpoints.2, hpoints.1⟩]
    rfl

/-- Where the path is nothing but slashes, no inlet is left. -/
theorem not_left_of_slashes {root : List Char} (hroot : ∀ c ∈ root, c = '/')
    {collection s : List Char}
    (hleft : Url.resolve [] (Url.pathPieces true root) = [collection, s]) :
    Percent.encode Url.pathSafe collection ≠ "input-ports".toList := by
  have hmem := (Url.resolve_sublist [] (Url.pathPieces true root)).subset
    (hleft ▸ List.mem_cons_self : collection ∈ _)
  have hcollection : collection = [] := by
    rcases List.mem_append.mp hmem with hpiece | hend
    · exact Url.eq_nil_of_mem_pathPieces hroot hpiece
    · exact List.mem_singleton.mp hend
  rw [hcollection]
  decide

end Inlets

/-! ## The whole way -/

section Hops

variable {a : Address} {base : Url} {r : Request} {segment path rest more : List Char} {id : String}
  {mark : Char}

/-- The path of an inlet is written as it is told apart. -/
theorem rawPath_of_inlet (hroute : Route.ofPath? r.target.path = some (.inlet segment)) :
    r.target.rawPath.toList = '/' :: ("input-ports".toList ++ '/' :: segment) := by
  have hpieces : pieces '/' r.target.path.toList = [[], "input-ports".toList, segment] :=
    (Route.ofPath?_eq_inlet_iff.mp hroute).1
  have hpath : r.target.path.toList = '/' :: ("input-ports".toList ++ '/' :: segment) := by
    rw [← intercalate_pieces '/' r.target.path.toList, hpieces, List.intercalate_cons_cons,
      List.intercalate_cons_cons, List.intercalate_singleton, List.append_assoc, List.append_assoc]
    rfl
  by_cases hraw : r.target.rawPath = ""
  · rw [Target.path, if_pos hraw] at hpath
    cases (List.cons.inj hpath).2
  · rwa [Target.path, if_neg hraw] at hpath

/-- A request is sent to an address of HTTP, whatever else it asks for. -/
theorem hop_eq_ok (hbase : Url.parse? a.text = some base) (hhttp : base.isHttp = true)
    (hrest : Origin.Continues path rest)
    (htext : hopUrl a.text r = String.ofList (a.toOrigin.text ++ path ++ rest)) :
    ∃ url, hop a.text r = .ok url ∧ url.path = Url.pathText true ('/' :: path.drop 1) ∧
      url.query = (Url.splitFirst '?' (Url.splitFirst '#' rest).1).2.map
        (Percent.encode (Url.querySafe true)) := by
  obtain ⟨url, hurl, hsends, hpath, hquery⟩ :=
    Origin.parse?_of_isHttp a.continues hbase hhttp hrest
  refine ⟨url, ?_, hpath, hquery⟩
  simp only [hop, htext, hurl, hsends, ↓reduceIte]

/-- What stands behind a path is its query and no more. -/
theorem splitFirst_tail (h : r.target.Written) :
    Url.splitFirst '?' (Url.splitFirst '#' r.target.tail).1 =
      ([], r.target.query.map String.toList) := by
  have hplain : '#' ∉ r.target.tail := fun hmem => (h.tail '#' hmem).2 rfl
  rw [Url.splitFirst_of_not_mem hplain, Target.tail]
  cases r.target.query with
  | none => rfl
  | some q => exact Url.splitFirst_cons_self

/-- The text of a hop is the address, the path and what stands behind it. -/
theorem hopUrl_eq (url : String) (r : Request) :
    hopUrl url r = dropFinalSlashes url ++ String.ofList (r.target.rawPath.toList ++ r.target.tail) := by
  rw [hopUrl, ← Target.toList_pathAndQuery, String.ofList_toList]

/-- To an address without a query and a fragment, the path and the query of a request are what is asked
for. -/
theorem addressed_of_bare (hbase : Url.parse? a.text = some base) (hhttp : base.isHttp = true)
    (hr : r.target.Written) (hroute : Route.ofPath? r.target.path = some (.inlet segment))
    (hid : decodeId segment = .ok id) (htail : a.tail = []) :
    ∃ url, hop a.text r = .ok url ∧
      ((arriving url r).Addresses id (Form.decode (r.target.query.getD "")) ↔
        '\\' ∉ segment ∧ Url.pointed segment ∉ [['.'], ['.', '.']]) := by
  obtain ⟨hsegments, hsome⟩ := Route.ofPath?_eq_inlet_iff.mp hroute
  have hlast : segment ∈ segments r.target.path.toList := by
    rw [hsegments]
    exact List.mem_cons_of_mem _ (List.mem_cons_of_mem _ List.mem_cons_self)
  have hslash : '/' ∉ segment := not_mem_of_mem_pieces hlast
  have hraw := rawPath_of_inlet hroute
  have hrest : Origin.Continues r.target.rawPath.toList r.target.tail :=
    ⟨Or.inr ⟨_, hraw⟩, hr.path, fun c hc => (hr.tail c hc).1, congrArg Prod.fst (splitFirst_tail hr)⟩
  obtain ⟨url, hurl, hpath, hquery⟩ := hop_eq_ok hbase hhttp hrest (by
    rw [hopUrl_eq, Address.dropFinalSlashes_text_of_bare htail, ← String.ofList_append,
      List.append_assoc])
  refine ⟨url, hurl, ?_⟩
  rw [splitFirst_tail hr] at hquery
  rw [hraw] at hpath
  have hform : Form.decode (String.ofList ((r.target.query.map String.toList).getD [])) =
      Form.decode (r.target.query.getD "") := by
    cases r.target.query with
    | none => rfl
    | some q => exact congrArg Form.decode String.ofList_toList
  rw [arriving_addresses_iff hpath hquery, hform, ← left_alike_iff hslash hsome hid]
  simp only [List.drop_succ_cons, List.drop_zero, and_true]

/-- To one with a query or a fragment, no request asks for an inlet: all of it becomes a part of them. -/
theorem not_addresses_of_tail (hbase : Url.parse? a.text = some base) (hhttp : base.isHttp = true)
    (hr : r.target.Written) (htail : a.tail = mark :: more) :
    ∃ url, hop a.text r = .ok url ∧ ∀ id parameters, ¬ (arriving url r).Addresses id parameters := by
  obtain ⟨hmark, kept, hkept, haddress⟩ := Address.dropFinalSlashes_text_of_tail htail
  have hrest : Origin.Continues a.root
      (mark :: (kept ++ (r.target.rawPath.toList ++ r.target.tail))) := by
    refine Address.continues_of_mark hmark fun c hc => ?_
    rcases List.mem_append.mp hc with hc | hc
    · exact hkept c hc
    · rcases List.mem_append.mp hc with hc | hc
      · exact (hr.path c hc).1
      · exact (hr.tail c hc).1
  obtain ⟨url, hurl, hpath, hquery⟩ := hop_eq_ok hbase hhttp hrest (by
    rw [hopUrl_eq, haddress, ← String.ofList_append, List.append_assoc, List.cons_append])
  refine ⟨url, hurl, fun id parameters => ?_⟩
  rw [arriving_addresses_iff hpath hquery]
  rintro ⟨collection, s, hleft, hcollection, -⟩
  exact not_left_of_slashes (fun c hc => a.bare c (List.mem_of_mem_drop hc)) hleft hcollection

/-- **Where a hop leads.** A follower sends a request for an inlet on to an address of HTTP that has no
path of its own. The request is sent, and what the coordinator is asked about is the same inlet with the
same parameters exactly if the address has no query and no fragment, and the last segment of the path,
as it is written, has no backslash in it and is not one of points. -/
theorem addressed_alike_iff (hbase : Url.parse? a.text = some base) (hhttp : base.isHttp = true)
    (hr : r.target.Written) (hroute : Route.ofPath? r.target.path = some (.inlet segment))
    (hid : decodeId segment = .ok id) :
    ∃ url, hop a.text r = .ok url ∧
      ((arriving url r).Addresses id (Form.decode (r.target.query.getD "")) ↔
        a.tail = [] ∧ '\\' ∉ segment ∧ Url.pointed segment ∉ [['.'], ['.', '.']]) := by
  cases htail : a.tail with
  | nil =>
    obtain ⟨url, hurl, hiff⟩ := addressed_of_bare hbase hhttp hr hroute hid htail
    refine ⟨url, hurl, ?_⟩
    rw [hiff, eq_self, true_and]
  | cons mark more =>
    obtain ⟨url, hurl, hnone⟩ := not_addresses_of_tail hbase hhttp hr htail
    exact ⟨url, hurl, iff_of_false (hnone id _) fun h => List.cons_ne_nil mark more h.1⟩

end Hops

/-- The coordinator by its name, with a slash. -/
def named : Address where
  scheme := "http".toList
  slashes := "//".toList
  authority := "coordinator".toList
  isHttp := by decide
  slashed := List.all_iff_forall_prop.mp (by decide)
  named := by decide
  whole := List.all_iff_forall_prop.mp (by decide)
  root := ['/']
  bare := List.all_iff_forall_prop.mp (by decide)
  tail := []
  tailed := nofun
  seen := nofun

theorem parse?_named :
    Url.parse? named.text = some ⟨"http".toList, some "coordinator".toList, none, ['/'], none, none⟩ := by
  decide +kernel

/-- A request to remove an inlet. -/
def removing (line : String) : Request := ⟨"DELETE", Target.parse line, [], []⟩

theorem written_removing {line : String} (h : ∀ c ∈ line.toList, 0x20 < c.toNat) :
    (removing line).target.Written := Target.written_parse h

/-- An escape in an id is read by the coordinator. -/
theorem addressed_alike_escaped :
    ∃ url, hop named.text (removing "/input-ports/p%31?version=0&clientId=a+b") = .ok url ∧
      (arriving url (removing "/input-ports/p%31?version=0&clientId=a+b")).Addresses "p1"
        [("version", "0"), ("clientId", "a b")] := by
  have hwritten : (removing "/input-ports/p%31?version=0&clientId=a+b").target.Written :=
    written_removing (List.all_iff_forall_prop.mp (by decide))
  have hroute : Route.ofPath? (removing "/input-ports/p%31?version=0&clientId=a+b").target.path =
      some (.inlet "p%31".toList) := by decide +kernel
  have hid : decodeId "p%31".toList = .ok "p1" := by decide +kernel
  have hplain : named.tail = [] ∧ '\\' ∉ "p%31".toList ∧
      Url.pointed "p%31".toList ∉ [['.'], ['.', '.']] := by decide
  obtain ⟨url, hurl, hiff⟩ := addressed_alike_iff parse?_named (by decide) hwritten hroute hid
  exact ⟨url, hurl, hiff.mpr hplain⟩

/-- It is not so that the coordinator is always asked about the same inlet: here a client of the
follower means `draft\..\p1`, and it is `p1` that the coordinator removes. -/
theorem not_always_addressed_alike :
    ¬ ∀ (a : Address) (base : Url) (r : Request) (segment : List Char) (id : String),
      Url.parse? a.text = some base → base.isHttp = true → r.target.Written →
      Route.ofPath? r.target.path = some (.inlet segment) → decodeId segment = .ok id →
      ∃ url, hop a.text r = .ok url ∧
        (arriving url r).Addresses id (Form.decode (r.target.query.getD "")) := by
  intro h
  have hroute : Route.ofPath? (removing "/input-ports/draft\\..\\p1?version=0").target.path =
      some (.inlet "draft\\..\\p1".toList) := by decide +kernel
  have hid : decodeId "draft\\..\\p1".toList = .ok "draft\\..\\p1" := by decide +kernel
  obtain ⟨url, hurl, segment, harrives, hsegment, -⟩ := h named _ _ _ _ parse?_named (by decide)
    (written_removing (List.all_iff_forall_prop.mp (by decide))) hroute hid
  have hhop : hop named.text (removing "/input-ports/draft\\..\\p1?version=0") =
      .ok ⟨"http".toList, some "coordinator".toList, none, "/input-ports/p1".toList,
        some "version=0".toList, none⟩ := by decide +kernel
  rw [hhop] at hurl
  obtain rfl := Except.ok.inj hurl
  have hother : Route.ofPath? (Target.parse "/input-ports/p1?version=0").path =
      some (.inlet "p1".toList) := by decide +kernel
  have harrived : some (Route.inlet "p1".toList) = some (.inlet segment) := hother.symm.trans harrives
  cases harrived
  exact absurd hsegment (by decide +kernel)

end Routing

end InletRegistry
