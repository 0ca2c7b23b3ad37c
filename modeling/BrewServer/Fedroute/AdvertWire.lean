import BrewServer.Fedroute.Wire

/-!
# Adverts over the wire

What a neighbour parses of an advert: its texts cut to their longest, all else as it
was sent.
-/

namespace BrewServer.Fedroute

open Protocol

/-! ## Texts -/

/-- A text as it arrives. -/
def clipText (s : String) : String := (fromUtf8 (clip s)).getD ""

theorem exists_clip (s : String) : ∃ t : String, clip s = utf8Bytes t := exists_text s (Nat.min_le_left _ _)

theorem fromUtf8_clip (s : String) : fromUtf8 (clip s) = some (clipText s) := by
  obtain ⟨t, ht⟩ := exists_clip s
  rw [clipText, ht, fromUtf8_utf8Bytes, Option.getD_some]

theorem utf8Bytes_clipText (s : String) : utf8Bytes (clipText s) = clip s := by
  obtain ⟨t, ht⟩ := exists_clip s
  rw [clipText, ht, fromUtf8_utf8Bytes, Option.getD_some]

theorem length_clip (s : String) : (clip s).length ≤ maxBtsText := by
  have hle := (boundaryBefore_spec (utf8Bytes s) (min (utf8Bytes s).length maxBtsText)).1
  rw [clip, List.length_take]
  omega

/-- A text that fits is sent in full. -/
theorem clip_of_short {s : String} (h : (utf8Bytes s).length ≤ maxBtsText) : clip s = utf8Bytes s := by
  rw [clip, Nat.min_eq_left h, boundaryBefore_length, List.take_length]

theorem clipText_of_short {s : String} (h : (utf8Bytes s).length ≤ maxBtsText) : clipText s = s := by
  rw [clipText, clip_of_short h, fromUtf8_utf8Bytes, Option.getD_some]

/-- A text that arrived is passed on as it is. -/
theorem clip_clipText (s : String) : clip (clipText s) = clip s := by
  rw [clip_of_short, utf8Bytes_clipText]
  rw [utf8Bytes_clipText]
  exact length_clip s

theorem clipText_clipText (s : String) : clipText (clipText s) = clipText s := by
  rw [clipText, clip_clipText, clipText]

/-! ## Fields -/

theorem getElem?_field (a b : Bytes) (x : UInt8) {o : Nat} (ho : a.length = o) : (a ++ (x :: b))[o]? = some x := by
  rw [List.getElem?_append_right (by omega), ho, Nat.sub_self, List.getElem?_cons_zero]

theorem drop_field (a b : Bytes) {o : Nat} (ho : a.length = o) : (a ++ b).drop o = b := List.drop_left' ho

theorem toNat_length_clip (s : String) : (UInt8.ofNat (clip s).length).toNat = (clip s).length := by
  have h := length_clip s
  have : (clip s).length < 256 := lt_of_le_of_lt h (by decide)
  simp only [UInt8.toNat_ofNat']
  omega

theorem flagByte_ne (b : Bool) : (flagByte b != 0) = b := by cases b <;> rfl

/-! ## Adverts -/

theorem parse_buildMsPos (a : MsAdvert) {nbrId : UInt64} (h : PathFrom nbrId a.path) :
    parse (buildMsPos a) nbrId = some (.ok (.msPos { a with station := clipText a.station })) := by
  have hn := toNat_length h.short
  have hpos := h.pos
  have hclip := length_clip a.station
  -- Thirty bytes stand before the path length.
  let front : Bytes := [classFederation, fedMsPos] ++ le64 a.atMs ++ le32 a.issi ++ le64 a.lat ++ le64 a.lon
  let tail : Bytes := UInt8.ofNat (clip a.station).length :: clip a.station
  have hfront : front.length = 30 := by simp [front]
  have hraw : buildMsPos a = front ++ UInt8.ofNat a.path.length :: (a.path.flatMap le64 ++ tail) := by
    simp only [buildMsPos, pathBytes, lengthPrefixed, front, tail, List.append_assoc, List.cons_append]
  have hpathraw : buildMsPos a = (front ++ [UInt8.ofNat a.path.length]) ++ (a.path.flatMap le64 ++ tail) := by
    simp only [hraw, List.append_assoc, List.cons_append, List.nil_append]
  have htailraw : buildMsPos a = (front ++ [UInt8.ofNat a.path.length] ++ a.path.flatMap le64) ++ tail := by
    simp only [hraw, List.append_assoc, List.cons_append, List.nil_append]
  have htextraw : buildMsPos a = (front ++ [UInt8.ofNat a.path.length] ++ a.path.flatMap le64 ++
      [UInt8.ofNat (clip a.station).length]) ++ clip a.station := by
    simp only [hraw, tail, List.append_assoc, List.cons_append, List.nil_append]
  have hpathlen : (front ++ [UInt8.ofNat a.path.length]).length = 31 := by
    rw [List.length_append, hfront, List.length_singleton]
  have htaillen : (front ++ [UInt8.ofNat a.path.length] ++ a.path.flatMap le64).length = 31 + 8 * a.path.length := by
    rw [List.length_append, hpathlen, length_flatMap_le64]
  have hlen : (buildMsPos a).length = 32 + 8 * a.path.length + (clip a.station).length := by
    rw [htailraw, List.length_append, htaillen]
    simp only [tail, List.length_cons]
    omega
  have htype : (buildMsPos a)[1]? = some fedMsPos := rfl
  have hat : u64At (buildMsPos a) 2 = some a.atMs := by
    simp only [buildMsPos, List.append_assoc]
    exact u64At_field _ _ _ rfl
  have hissi : u32At (buildMsPos a) 10 = some a.issi := by
    have h := u32At_field ([classFederation, fedMsPos] ++ le64 a.atMs) (le64 a.lat ++ (le64 a.lon ++
      (pathBytes a.path ++ lengthPrefixed (clip a.station)))) a.issi (o := 10) (by simp)
    simpa only [buildMsPos, List.append_assoc] using h
  have hlat : u64At (buildMsPos a) 14 = some a.lat := by
    have h := u64At_field ([classFederation, fedMsPos] ++ le64 a.atMs ++ le32 a.issi) (le64 a.lon ++
      (pathBytes a.path ++ lengthPrefixed (clip a.station))) a.lat (o := 14) (by simp)
    simpa only [buildMsPos, List.append_assoc] using h
  have hlon : u64At (buildMsPos a) 22 = some a.lon := by
    have h := u64At_field ([classFederation, fedMsPos] ++ le64 a.atMs ++ le32 a.issi ++ le64 a.lat)
      (pathBytes a.path ++ lengthPrefixed (clip a.station)) a.lon (o := 22) (by simp)
    simpa only [buildMsPos, List.append_assoc] using h
  have hcount : (buildMsPos a)[30]? = some (UInt8.ofNat a.path.length) := by
    rw [hraw]
    exact getElem?_field _ _ _ hfront
  have hpath : u64sAt (buildMsPos a) 31 a.path.length = some a.path := by
    rw [hpathraw]
    exact u64sAt_field _ _ _ hpathlen
  have hslen : (buildMsPos a)[31 + 8 * a.path.length]? = some (UInt8.ofNat (clip a.station).length) := by
    rw [htailraw]
    exact getElem?_field _ _ _ htaillen
  have htext : (buildMsPos a).drop (31 + 8 * a.path.length + 1) = clip a.station := by
    rw [htextraw]
    exact drop_field _ _ (by rw [List.length_append, htaillen, List.length_singleton])
  have hfirst : a.path[0]? = some nbrId := by rw [← List.head?_eq_getElem?, h.head]
  have hle : ¬ maxPath < a.path.length := by have := h.short; omega
  have hz : ¬ a.path.length = 0 := by omega
  have hshort : ¬ 32 + 8 * a.path.length + (clip a.station).length < 32 := by omega
  have htotal : 32 + 8 * a.path.length + (clip a.station).length =
      31 + 8 * a.path.length + 1 + (clip a.station).length := by omega
  have hfits : ¬ maxBtsText < (clip a.station).length := by omega
  simp only [parse, htype, parseMsPos, hlen, hcount, hn, hslen, toNat_length_clip, hpath, hfirst, hissi, hat, hlat, hlon,
    htext, fromUtf8_clip, crossesTwice_eq_false_iff.mpr h.nodup, Option.bind_eq_bind, Option.bind_some, Option.pure_def,
    decide_eq_false hle, decide_eq_false hz, decide_eq_false hfits, if_neg hshort]
  simp [htotal, fedRoute, fedWithdraw, fedPrune, fedBtsHello, fedMsPos]

/-- A called party of zero is none. -/
def wireDest (dest : Option UInt32) : Option UInt32 := if dest.getD 0 ≠ 0 then some (dest.getD 0) else none

theorem parse_buildEmergency (a : EmAdvert) {nbrId : UInt64} (h : PathFrom nbrId a.path) :
    parse (buildEmergency a) nbrId =
      some (.ok (.emergency { a with dest := wireDest a.dest, bts := clipText a.bts })) := by
  have hn := toNat_length h.short
  have hpos := h.pos
  have hclip := length_clip a.bts
  -- Nineteen bytes stand before the path length.
  let front : Bytes := [classFederation, fedEmergency] ++ le64 a.seq ++ [flagByte a.active] ++ le32 a.issi ++
    le32 (a.dest.getD 0)
  let tail : Bytes := UInt8.ofNat (clip a.bts).length :: clip a.bts
  have hfront : front.length = 19 := by simp [front]
  have hraw : buildEmergency a = front ++ UInt8.ofNat a.path.length :: (a.path.flatMap le64 ++ tail) := by
    simp only [buildEmergency, pathBytes, lengthPrefixed, front, tail, List.append_assoc, List.cons_append]
  have hpathraw : buildEmergency a = (front ++ [UInt8.ofNat a.path.length]) ++ (a.path.flatMap le64 ++ tail) := by
    simp only [hraw, List.append_assoc, List.cons_append, List.nil_append]
  have htailraw : buildEmergency a = (front ++ [UInt8.ofNat a.path.length] ++ a.path.flatMap le64) ++ tail := by
    simp only [hraw, List.append_assoc, List.cons_append, List.nil_append]
  have htextraw : buildEmergency a = (front ++ [UInt8.ofNat a.path.length] ++ a.path.flatMap le64 ++
      [UInt8.ofNat (clip a.bts).length]) ++ clip a.bts := by
    simp only [hraw, tail, List.append_assoc, List.cons_append, List.nil_append]
  have hpathlen : (front ++ [UInt8.ofNat a.path.length]).length = 20 := by
    rw [List.length_append, hfront, List.length_singleton]
  have htaillen : (front ++ [UInt8.ofNat a.path.length] ++ a.path.flatMap le64).length = 20 + 8 * a.path.length := by
    rw [List.length_append, hpathlen, length_flatMap_le64]
  have hlen : (buildEmergency a).length = 21 + 8 * a.path.length + (clip a.bts).length := by
    rw [htailraw, List.length_append, htaillen]
    simp only [tail, List.length_cons]
    omega
  have htype : (buildEmergency a)[1]? = some fedEmergency := rfl
  have hseq : u64At (buildEmergency a) 2 = some a.seq := by
    simp only [buildEmergency, List.append_assoc]
    exact u64At_field _ _ _ rfl
  have hactive : (buildEmergency a)[10]? = some (flagByte a.active) := by
    have h := getElem?_field ([classFederation, fedEmergency] ++ le64 a.seq) (le32 a.issi ++ (le32 (a.dest.getD 0) ++
      (pathBytes a.path ++ lengthPrefixed (clip a.bts)))) (flagByte a.active) (o := 10) (by simp)
    simpa only [buildEmergency, List.append_assoc, List.cons_append, List.nil_append] using h
  have hissi : u32At (buildEmergency a) 11 = some a.issi := by
    have h := u32At_field ([classFederation, fedEmergency] ++ le64 a.seq ++ [flagByte a.active])
      (le32 (a.dest.getD 0) ++ (pathBytes a.path ++ lengthPrefixed (clip a.bts))) a.issi (o := 11) (by simp)
    simpa only [buildEmergency, List.append_assoc] using h
  have hdest : u32At (buildEmergency a) 15 = some (a.dest.getD 0) := by
    have h := u32At_field ([classFederation, fedEmergency] ++ le64 a.seq ++ [flagByte a.active] ++ le32 a.issi)
      (pathBytes a.path ++ lengthPrefixed (clip a.bts)) (a.dest.getD 0) (o := 15) (by simp)
    simpa only [buildEmergency, List.append_assoc] using h
  have hcount : (buildEmergency a)[19]? = some (UInt8.ofNat a.path.length) := by
    rw [hraw]
    exact getElem?_field _ _ _ hfront
  have hpath : u64sAt (buildEmergency a) 20 a.path.length = some a.path := by
    rw [hpathraw]
    exact u64sAt_field _ _ _ hpathlen
  have hblen : (buildEmergency a)[20 + 8 * a.path.length]? = some (UInt8.ofNat (clip a.bts).length) := by
    rw [htailraw]
    exact getElem?_field _ _ _ htaillen
  have htext : (buildEmergency a).drop (20 + 8 * a.path.length + 1) = clip a.bts := by
    rw [htextraw]
    exact drop_field _ _ (by rw [List.length_append, htaillen, List.length_singleton])
  have hfirst : a.path[0]? = some nbrId := by rw [← List.head?_eq_getElem?, h.head]
  have hle : ¬ maxPath < a.path.length := by have := h.short; omega
  have hz : ¬ a.path.length = 0 := by omega
  have hshort : ¬ 21 + 8 * a.path.length + (clip a.bts).length < 21 := by omega
  have htotal : 21 + 8 * a.path.length + (clip a.bts).length =
      20 + 8 * a.path.length + 1 + (clip a.bts).length := by omega
  have hfits : ¬ maxBtsText < (clip a.bts).length := by omega
  simp only [parse, htype, parseEmergency, hlen, hcount, hn, hblen, toNat_length_clip, hpath, hfirst, hissi, hseq, hdest,
    hactive, htext, fromUtf8_clip, crossesTwice_eq_false_iff.mpr h.nodup, Option.bind_eq_bind, Option.bind_some,
    Option.pure_def, decide_eq_false hle, decide_eq_false hz, decide_eq_false hfits, if_neg hshort, flagByte_ne]
  simp [htotal, fedRoute, fedWithdraw, fedPrune, fedBtsHello, fedMsPos, fedEmergency, wireDest]

/-- A text at `pos` as `btsText` reads it. -/
theorem btsText_field (a b : Bytes) (s : String) {o : Nat} (ho : a.length = o) :
    btsText (a ++ (lengthPrefixed (clip s) ++ b)) o = .ok (clipText s, o + 1 + (clip s).length) := by
  have hlen : (a ++ (lengthPrefixed (clip s) ++ b))[o]? = some (UInt8.ofNat (clip s).length) := by
    rw [lengthPrefixed, List.cons_append]
    exact getElem?_field _ _ _ ho
  have hslice : slice (a ++ (lengthPrefixed (clip s) ++ b)) (o + 1) (clip s).length = some (clip s) := by
    have h := slice_field (a ++ [UInt8.ofNat (clip s).length]) (clip s) b (o := o + 1) (n := (clip s).length)
      (by simp [ho]) rfl
    simpa only [lengthPrefixed, List.append_assoc, List.cons_append, List.nil_append] using h
  have hfits : ¬ maxBtsText < (clip s).length := Nat.not_lt.mpr (length_clip s)
  simp only [btsText, hlen, toNat_length_clip, hslice, fromUtf8_clip, if_neg hfits]

theorem parse_buildBts (a : BtsAdvert) {nbrId : UInt64} (h : PathFrom nbrId a.path) :
    parse (buildBts a) nbrId =
      some (.ok (.bts { a with key := clipText a.key, name := clipText a.name })) := by
  have hn := toNat_length h.short
  have hpos := h.pos
  -- Twenty-seven bytes stand before the path length.
  let front : Bytes := [classFederation, fedBts] ++ le64 a.seq ++ [flagByte a.online] ++ le64 a.lat ++ le64 a.lon
  let tail : Bytes := lengthPrefixed (clip a.key) ++ lengthPrefixed (clip a.name)
  have hfront : front.length = 27 := by simp [front]
  have hraw : buildBts a = front ++ UInt8.ofNat a.path.length :: (a.path.flatMap le64 ++ tail) := by
    simp only [buildBts, pathBytes, front, tail, List.append_assoc, List.cons_append]
  have hpathraw : buildBts a = (front ++ [UInt8.ofNat a.path.length]) ++ (a.path.flatMap le64 ++ tail) := by
    simp only [hraw, List.append_assoc, List.cons_append, List.nil_append]
  have hpathlen : (front ++ [UInt8.ofNat a.path.length]).length = 28 := by
    rw [List.length_append, hfront, List.length_singleton]
  let upto : Bytes := front ++ [UInt8.ofNat a.path.length] ++ a.path.flatMap le64
  have hupto : upto.length = 28 + 8 * a.path.length := by
    rw [List.length_append, hpathlen, length_flatMap_le64]
  have hkeyraw : buildBts a = upto ++ (lengthPrefixed (clip a.key) ++ lengthPrefixed (clip a.name)) := by
    simp only [hraw, tail, upto, List.append_assoc, List.cons_append, List.nil_append]
  have hnameraw : buildBts a = (upto ++ lengthPrefixed (clip a.key)) ++ (lengthPrefixed (clip a.name) ++ []) := by
    simp only [hkeyraw, List.append_assoc, List.append_nil]
  have hkeylen : (upto ++ lengthPrefixed (clip a.key)).length = 28 + 8 * a.path.length + 1 + (clip a.key).length := by
    rw [List.length_append, hupto, lengthPrefixed, List.length_cons]
    omega
  have hlen : (buildBts a).length =
      28 + 8 * a.path.length + 1 + (clip a.key).length + 1 + (clip a.name).length := by
    rw [hnameraw, List.length_append, hkeylen, List.append_nil, lengthPrefixed, List.length_cons]
    omega
  have htype : (buildBts a)[1]? = some fedBts := rfl
  have hseq : u64At (buildBts a) 2 = some a.seq := by
    simp only [buildBts, List.append_assoc]
    exact u64At_field _ _ _ rfl
  have honline : (buildBts a)[10]? = some (flagByte a.online) := by
    have h := getElem?_field ([classFederation, fedBts] ++ le64 a.seq) (le64 a.lat ++ (le64 a.lon ++
      (pathBytes a.path ++ (lengthPrefixed (clip a.key) ++ lengthPrefixed (clip a.name))))) (flagByte a.online)
      (o := 10) (by simp)
    simpa only [buildBts, List.append_assoc, List.cons_append, List.nil_append] using h
  have hlat : u64At (buildBts a) 11 = some a.lat := by
    have h := u64At_field ([classFederation, fedBts] ++ le64 a.seq ++ [flagByte a.online]) (le64 a.lon ++
      (pathBytes a.path ++ (lengthPrefixed (clip a.key) ++ lengthPrefixed (clip a.name)))) a.lat (o := 11) (by simp)
    simpa only [buildBts, List.append_assoc] using h
  have hlon : u64At (buildBts a) 19 = some a.lon := by
    have h := u64At_field ([classFederation, fedBts] ++ le64 a.seq ++ [flagByte a.online] ++ le64 a.lat)
      (pathBytes a.path ++ (lengthPrefixed (clip a.key) ++ lengthPrefixed (clip a.name))) a.lon (o := 19) (by simp)
    simpa only [buildBts, List.append_assoc] using h
  have hcount : (buildBts a)[27]? = some (UInt8.ofNat a.path.length) := by
    rw [hraw]
    exact getElem?_field _ _ _ hfront
  have hpath : u64sAt (buildBts a) 28 a.path.length = some a.path := by
    rw [hpathraw]
    exact u64sAt_field _ _ _ hpathlen
  have hkey : btsText (buildBts a) (28 + 8 * a.path.length) =
      .ok (clipText a.key, 28 + 8 * a.path.length + 1 + (clip a.key).length) := by
    rw [hkeyraw]
    exact btsText_field _ _ _ hupto
  have hname : btsText (buildBts a) (28 + 8 * a.path.length + 1 + (clip a.key).length) =
      .ok (clipText a.name, 28 + 8 * a.path.length + 1 + (clip a.key).length + 1 + (clip a.name).length) := by
    rw [hnameraw]
    exact btsText_field _ _ _ hkeylen
  have hfirst : a.path[0]? = some nbrId := by rw [← List.head?_eq_getElem?, h.head]
  have hle : ¬ maxPath < a.path.length := by have := h.short; omega
  have hz : ¬ a.path.length = 0 := by omega
  have hshort : ¬ (buildBts a).length < 28 := by omega
  have hlong : ¬ (buildBts a).length < 28 + 8 * a.path.length := by omega
  simp only [parse, htype, parseBts, hcount, hn, hpath, hfirst, hseq, honline, hlat, hlon, hkey, hname,
    crossesTwice_eq_false_iff.mpr h.nodup, Option.bind_eq_bind, Option.bind_some, Option.pure_def,
    decide_eq_false hle, decide_eq_false hz, if_neg hshort, if_neg hlong, flagByte_ne]
  simp [hlen, fedRoute, fedWithdraw, fedPrune, fedBtsHello, fedMsPos, fedEmergency, fedBts]

end BrewServer.Fedroute
