import Mathlib.Data.Nat.Digits.Lemmas
import MyselfServer.Router
import MyselfServer.TagList

/-!
# Conditional requests by entity tag

`etagMatches` cuts the field value at every comma, also inside a quoted tag.
What `makeETag` writes has no comma between its quotes, so no piece of another
tag is taken for it, and a tag equal to it is never cut.
-/

namespace Myself

open Text TagList

/-! ## The validator -/

def hexVal (c : UInt8) : Nat := if c ≤ 57 then c.toNat - 48 else c.toNat - 87

def unhex (s : Bytes) : Nat := Nat.ofDigits 16 (s.reverse.map hexVal)

theorem hexDigit_plain : ∀ d < 16, hexVal (hexDigit d) = d ∧ isTagByte (hexDigit d) = true ∧
    hexDigit d ≠ SEP ∧ hexDigit d ≠ 45 := by
  decide +kernel

theorem hexText_digits (n : Nat) : ∃ ds : List Nat, (∀ d ∈ ds, d < 16) ∧ Nat.ofDigits 16 ds = n ∧
    hexText n = (ds.map hexDigit).reverse ∧ (n < 2 ^ 64 → ds.length ≤ 16) := by
  by_cases h : n = 0
  · subst h
    exact ⟨[0], by simp, rfl, by decide, by simp⟩
  · refine ⟨Nat.digits 16 n, fun d hd => Nat.digits_lt_base (by decide) hd, Nat.ofDigits_digits 16 n,
      by rw [hexText, if_neg h], ?_⟩
    intro hlt
    exact (Nat.digits_length_le_iff (by decide) n).mpr hlt

theorem unhex_hexText (n : Nat) : unhex (hexText n) = n := by
  obtain ⟨ds, hlt, hval, htext, -⟩ := hexText_digits n
  have hmap : ds.map (hexVal ∘ hexDigit) = ds :=
    (List.map_congr_left fun d hd => (hexDigit_plain d (hlt d hd)).1).trans (List.map_id' ds)
  rw [unhex, htext, List.reverse_reverse, List.map_map, hmap, hval]

theorem length_hexText {n : Nat} (h : n < 2 ^ 64) : (hexText n).length ≤ 16 := by
  obtain ⟨ds, -, -, htext, hlen⟩ := hexText_digits n
  rw [htext, List.length_reverse, List.length_map]
  exact hlen h

theorem hexText_plain {n : Nat} {c : UInt8} (h : c ∈ hexText n) :
    isTagByte c = true ∧ c ≠ SEP ∧ c ≠ 45 := by
  obtain ⟨ds, hlt, -, htext, -⟩ := hexText_digits n
  rw [htext, List.mem_reverse, List.mem_map] at h
  obtain ⟨d, hd, rfl⟩ := h
  exact (hexDigit_plain d (hlt d hd)).2

theorem toUnsigned_lt (n : Int) : toUnsigned n < 2 ^ 64 := by
  unfold toUnsigned
  omega

theorem toUnsigned_toInt {m n : Int64} (h : toUnsigned m.toInt = toUnsigned n.toInt) : m = n := by
  have hm := m.toInt_lt
  have hm' := m.le_toInt
  have hn := n.toInt_lt
  have hn' := n.le_toInt
  unfold toUnsigned at h
  apply Int64.toInt_inj.mp
  omega

def stamp (mtime size : Int) : Bytes := hexText (toUnsigned mtime) ++ 45 :: hexText (toUnsigned size)

/-- The buffer is large enough. -/
theorem makeETag_quoted (mtime size : Int) : makeETag mtime size = quoted (stamp mtime size) := by
  have hm := length_hexText (toUnsigned_lt mtime)
  have hs := length_hexText (toUnsigned_lt size)
  have htext : bytes "\"" ++ hexText (toUnsigned mtime) ++ bytes "-" ++ hexText (toUnsigned size) ++
      bytes "\"" = quoted (stamp mtime size) := by
    have hbytes : bytes "\"" = [DQUOTE] ∧ bytes "-" = [45] := by decide
    simp [quoted, stamp, hbytes]
  rw [makeETag, htext, List.take_of_length_le]
  simp only [quoted, stamp, List.length_cons, List.length_append, List.length_nil]
  omega

theorem stamp_plain {mtime size : Int} {c : UInt8} (h : c ∈ stamp mtime size) :
    isTagByte c = true ∧ c ≠ SEP := by
  rw [stamp, List.mem_append, List.mem_cons] at h
  rcases h with h | rfl | h
  · exact ⟨(hexText_plain h).1, (hexText_plain h).2.1⟩
  · decide
  · exact ⟨(hexText_plain h).1, (hexText_plain h).2.1⟩

theorem stamp_noQuote (mtime size : Int) : DQUOTE ∉ stamp mtime size := fun h =>
  (isTagByte_plain (stamp_plain h).1).1 rfl

/-- The dash is the only one, so it tells where the time ends. -/
theorem makeETag_inj {mtime size mtime' size' : Int64}
    (h : makeETag mtime.toInt size.toInt = makeETag mtime'.toInt size'.toInt) :
    mtime = mtime' ∧ size = size' := by
  have hdash : ∀ n : Int64, (45 : UInt8) ∉ hexText (toUnsigned n.toInt) := fun n hin =>
    (hexText_plain hin).2.2 rfl
  rw [makeETag_quoted, makeETag_quoted] at h
  have hstamp := List.append_cancel_right (List.cons.inj h).2
  have hlen := congrArg (search [45]) hstamp
  rw [stamp, stamp, search_one (hdash mtime), search_one (hdash mtime')] at hlen
  obtain ⟨hm, hs⟩ := List.append_inj hstamp (Option.some.inj hlen)
  have hm' := congrArg unhex hm
  have hs' := congrArg unhex (List.cons.inj hs).2
  rw [unhex_hexText, unhex_hexText] at hm' hs'
  exact ⟨toUnsigned_toInt hm', toUnsigned_toInt hs'⟩

/-! ## Comparison -/

theorem etagItem_part (item : Bytes) : etagItem item <:+: item := by
  unfold etagItem
  dsimp only
  split
  · exact (List.drop_suffix 2 _).isInfix.trans (trim_part item)
  · exact trim_part item

theorem etagItem_tag {item : Bytes} {t : Tag} (h : trim item = t.text) : etagItem item = t.quoted := by
  have hlen : t.quoted.length ≥ 2 := by simp [Tag.quoted, quoted]
  cases hw : t.weak with
  | true =>
    have htext : t.text = 87 :: 47 :: t.quoted := by
      rw [Tag.text, hw]
      rfl
    have hlong : 2 < (87 :: 47 :: t.quoted).length := by
      simp only [List.length_cons]
      omega
    rw [etagItem, h, htext, if_pos ⟨hlong, rfl⟩]
    rfl
  | false =>
    have htext : t.text = t.quoted := by
      rw [Tag.text, hw]
      rfl
    rw [etagItem, h, htext, if_neg]
    rintro ⟨-, hweak⟩
    cases hweak

theorem element_hit {e : Element} {inner : Bytes} (hinner : DQUOTE ∉ inner) (hsep : SEP ∉ inner) :
    (∃ item ∈ e.text.splitOn SEP, etagItem item = quoted inner) ↔
      ∃ t, e.tag = some t ∧ t.quoted = quoted inner := by
  constructor
  · rintro ⟨item, hitem, heq⟩
    obtain ⟨t, htag, rfl⟩ := e.quoted_part hitem (heq ▸ etagItem_part item) hinner
    exact ⟨t, htag, rfl⟩
  · rintro ⟨t, htag, heq⟩
    have htext := e.trim_text
    rw [htag] at htext
    have hin : t.inner = inner := List.append_cancel_right (List.cons.inj heq).2
    have hwhole : SEP ∉ e.text := e.noComma htag (hin ▸ hsep)
    refine ⟨e.text, ?_, ?_⟩
    · rw [List.splitOn_eq_singleton hwhole]
      exact List.mem_singleton_self _
    · rw [etagItem_tag htext, heq]

theorem etagMatches_iff (value : Value) {mtime size : Int} (hne : value.text ≠ []) :
    etagMatches value.text (makeETag mtime size) = true ↔ value.Names (makeETag mtime size) := by
  cases value with
  | any =>
    have hstar : trim (bytes "*") = bytes "*" := by decide
    simp [etagMatches, Value.text, Value.Names, hstar]
  | tags elements =>
    have helements : elements.map Element.text ≠ [] := by
      rintro h
      rw [Value.text, h] at hne
      exact hne rfl
    have hpieces : (Value.tags elements).text.splitOn COMMA =
        (elements.map Element.text).flatMap fun l => l.splitOn SEP :=
      splitOn_intercalate_flatMap helements
    have hfull : ∀ item, etagItem item = quoted (stamp mtime size) → (etagItem item).isEmpty = false := by
      intro item h
      rw [h]
      rfl
    rw [etagMatches, if_neg (Value.trim_tags elements), hpieces, makeETag_quoted, List.any_eq_true,
      Value.Names]
    simp only [List.mem_flatMap, List.mem_map, exists_exists_and_eq_and, Bool.and_eq_true,
      Bool.not_eq_true', decide_eq_true_eq]
    constructor
    · rintro ⟨item, ⟨e, he, hitem⟩, -, heq⟩
      exact ⟨e, he, (element_hit (stamp_noQuote mtime size) fun h => (stamp_plain h).2 rfl).mp ⟨item, hitem, heq⟩⟩
    · rintro ⟨e, he, hhit⟩
      obtain ⟨item, hitem, heq⟩ :=
        (element_hit (stamp_noQuote mtime size) fun h => (stamp_plain h).2 rfl).mpr hhit
      exact ⟨item, ⟨e, he, hitem⟩, hfull item heq, heq⟩

namespace Router

theorem serveStaticFile_status (r : Router) {disk : Disk} {path : Bytes} {request : HttpRequest}
    {info : FileStat} (hstat : disk.stat (cStr (r.wwwRoot ++ path)) = some info)
    (hreg : info.isReg = true) :
    (r.serveStaticFile disk path request).statusCode = 304 ↔
      isNotModified request (makeETag info.st_mtime info.st_size) info.st_mtime = true := by
  have hother : ∀ {code : Int} {p : Prop}, code ≠ 304 → ¬ p → (code = 304 ↔ p) := fun hcode hp =>
    ⟨fun h => absurd h hcode, fun h => absurd h hp⟩
  simp only [serveStaticFile, hstat, hreg, Bool.true_eq_false, if_false, serveFileBody]
  split
  · rename_i hnot
    exact ⟨fun _ => hnot, fun _ => rfl⟩
  · rename_i hnot
    apply hother _ hnot
    split
    · split
      · exact (by decide : (404 : Int) ≠ 304)
      · exact (by decide : (200 : Int) ≠ 304)
    · split
      · exact (by decide : (404 : Int) ≠ 304)
      · exact (by decide : (200 : Int) ≠ 304)

/-- **If-None-Match**: it alone decides, by weak comparison with the validator of
the file, and no two files share a validator unless time and size agree. -/
theorem none_match_decides (r : Router) {disk : Disk} {path : Bytes} {request : HttpRequest}
    {info : FileStat} {value : Value} (hstat : disk.stat (cStr (r.wwwRoot ++ path)) = some info)
    (hreg : info.isReg = true) (hvalue : request.getHeader (bytes "If-None-Match") = value.text)
    (hne : value.text ≠ []) :
    ((r.serveStaticFile disk path request).statusCode = 304 ↔
        value.Names (makeETag info.st_mtime info.st_size)) ∧
      ∀ mtime size mtime' size' : Int64,
        makeETag mtime.toInt size.toInt = makeETag mtime'.toInt size'.toInt →
          mtime = mtime' ∧ size = size' := by
  refine ⟨?_, fun mtime size mtime' size' => makeETag_inj⟩
  rw [r.serveStaticFile_status hstat hreg, ← etagMatches_iff value hne]
  simp [isNotModified, hvalue, hne]

def taggedDisk : Disk where
  stat _ := some ⟨true, 951868799, 5⟩
  openFile _ := none
  ifstream _ := some (bytes "hello")

def listed : Value := .tags [
  ⟨[], some ⟨false, bytes "a,b", List.all_eq_true.mp rfl⟩, bytes " ", List.all_eq_true.mp rfl⟩,
  ⟨bytes " ", some ⟨true, bytes "38bc5d7f-5", List.all_eq_true.mp rfl⟩, [], List.all_eq_true.mp rfl⟩]

def tagAsking : HttpRequest :=
  ({ } : HttpRequest).addHeader (bytes "If-None-Match") (bytes "\"a,b\" , W/\"38bc5d7f-5\"")

theorem none_match_decides_weak :
    (({ } : Router).serveStaticFile taggedDisk (bytes "/a.txt") tagAsking).statusCode = 304 := by
  have hvalue : tagAsking.getHeader (bytes "If-None-Match") = listed.text := by decide +kernel
  have hne : listed.text ≠ [] := by decide
  have hstat : taggedDisk.stat (cStr (({ } : Router).wwwRoot ++ bytes "/a.txt")) =
      some ⟨true, 951868799, 5⟩ := rfl
  apply (none_match_decides { } hstat rfl hvalue hne).1.mpr
  exact ⟨_, List.mem_cons_of_mem _ (List.mem_singleton_self _), _, rfl, by decide +kernel⟩

end Router

end Myself
