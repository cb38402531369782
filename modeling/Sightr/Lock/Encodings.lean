import Sightr.Lock.Cbor

/-!
# The encodings of CBOR values

The definite-length encodings of the values that `readCbor` supports, and what the reader makes of them. A text that
begins with a byte order mark is read without it.
-/

namespace Sightr

namespace Cbor

variable {lossy : List UInt8 → List Char} {buf : List UInt8} {offset : Nat}

/-! ### Encodings -/

/-- The heads of a major type and a number, of any width that holds the number. -/
inductive HeadOf (major n : Nat) : List UInt8 → Prop
  | short : n < 24 → HeadOf major n [UInt8.ofNat (major * 32 + n)]
  | wide (k : Nat) (number : List UInt8) : k < 3 → number.length = 2 ^ k → bigEndian number = n →
      HeadOf major n (UInt8.ofNat (major * 32 + 24 + k) :: number)

def utf8 (s : List Char) : List UInt8 := s.flatMap String.utf8EncodeChar

/-- The definite-length encodings of the values that are supported: integers of at most 32 bits, byte strings, texts,
arrays, and maps whose keys are distinct. -/
inductive Encodes : Cbor → List UInt8 → Prop
  | unsigned {n : Nat} {head : List UInt8} : HeadOf 0 n head → Encodes (.number n) head
  | negative {n : Nat} {head : List UInt8} : HeadOf 1 n head → Encodes (.number (-1 - n)) head
  | bytes {b head : List UInt8} : HeadOf 2 b.length head → Encodes (.bytes b) (head ++ b)
  | text {s : List Char} {head : List UInt8} : HeadOf 3 (utf8 s).length head → Encodes (.text s) (head ++ utf8 s)
  | array {items : List (Cbor × List UInt8)} {head : List UInt8} : HeadOf 4 items.length head →
      (∀ item ∈ items, Encodes item.1 item.2) → Encodes (.array (items.map (·.1))) (head ++ items.flatMap (·.2))
  | map {items : List ((CborKey × Cbor) × List UInt8 × List UInt8)} {head : List UInt8} :
      HeadOf 5 items.length head → (∀ item ∈ items, Encodes item.1.1.value item.2.1) →
      (∀ item ∈ items, Encodes item.1.2 item.2.2) → (items.map (·.1.1)).Nodup →
      Encodes (.map (items.map (·.1))) (head ++ items.flatMap fun item => item.2.1 ++ item.2.2)

inductive Supported : Cbor → Prop
  | unsigned {n : Nat} : n < 2 ^ 32 → Supported (.number n)
  | negative {n : Nat} : n < 2 ^ 32 → Supported (.number (-1 - n))
  | bytes {b : List UInt8} : b.length < 2 ^ 32 → Supported (.bytes b)
  | text {s : List Char} : (utf8 s).length < 2 ^ 32 → Supported (.text s)
  | array {values : List Cbor} : values.length < 2 ^ 32 → (∀ value ∈ values, Supported value) →
      Supported (.array values)
  | map {entries : List (CborKey × Cbor)} : entries.length < 2 ^ 32 → (entries.map (·.1)).Nodup →
      (∀ entry ∈ entries, Supported entry.1.value) → (∀ entry ∈ entries, Supported entry.2) → Supported (.map entries)

variable {n : Nat}

theorem headOf_four (major : Nat) (hn : n < 2 ^ 32) : ∃ head, HeadOf major n head := by
  refine ⟨_, .wide 2 [UInt8.ofNat (n / 2 ^ 24), UInt8.ofNat (n / 2 ^ 16 % 256), UInt8.ofNat (n / 2 ^ 8 % 256),
    UInt8.ofNat (n % 256)] (by omega) rfl ?_⟩
  have hbyte : ∀ k, k < 256 → (UInt8.ofNat k).toNat = k := fun k hk => UInt8.toNat_ofNat_of_lt' hk
  simp only [bigEndian, List.foldl_cons, List.foldl_nil]
  rw [hbyte _ (by omega), hbyte _ (by omega), hbyte _ (by omega), hbyte _ (by omega)]
  omega

theorem exists_items {values : List Cbor} (h : ∀ value ∈ values, ∃ bytes, Encodes value bytes) :
    ∃ items : List (Cbor × List UInt8), items.map (·.1) = values ∧ ∀ item ∈ items, Encodes item.1 item.2 := by
  induction values with
  | nil => exact ⟨[], rfl, fun _ hi => nomatch hi⟩
  | cons value values ih =>
    obtain ⟨bytes, hbytes⟩ := h value List.mem_cons_self
    obtain ⟨items, hitems, hall⟩ := ih fun value hv => h value (List.mem_cons_of_mem _ hv)
    exact ⟨(value, bytes) :: items, by rw [List.map_cons, hitems], List.forall_mem_cons.mpr ⟨hbytes, hall⟩⟩

theorem exists_entries {entries : List (CborKey × Cbor)}
    (hkey : ∀ entry ∈ entries, ∃ bytes, Encodes entry.1.value bytes)
    (hvalue : ∀ entry ∈ entries, ∃ bytes, Encodes entry.2 bytes) :
    ∃ items : List ((CborKey × Cbor) × List UInt8 × List UInt8), items.map (·.1) = entries ∧
      (∀ item ∈ items, Encodes item.1.1.value item.2.1) ∧ ∀ item ∈ items, Encodes item.1.2 item.2.2 := by
  induction entries with
  | nil => exact ⟨[], rfl, fun _ hi => (nomatch hi), fun _ hi => nomatch hi⟩
  | cons entry entries ih =>
    obtain ⟨keyBytes, hkeyBytes⟩ := hkey entry List.mem_cons_self
    obtain ⟨bytes, hbytes⟩ := hvalue entry List.mem_cons_self
    obtain ⟨items, hitems, hkeys, hvalues⟩ := ih (fun entry he => hkey entry (List.mem_cons_of_mem _ he))
      fun entry he => hvalue entry (List.mem_cons_of_mem _ he)
    exact ⟨(entry, keyBytes, bytes) :: items, by rw [List.map_cons, hitems],
      List.forall_mem_cons.mpr ⟨hkeyBytes, hkeys⟩, List.forall_mem_cons.mpr ⟨hbytes, hvalues⟩⟩

variable {value : Cbor}

theorem Supported.encodes (h : Supported value) : ∃ bytes, Encodes value bytes := by
  induction h with
  | unsigned hn =>
    obtain ⟨head, hhead⟩ := headOf_four 0 hn
    exact ⟨head, .unsigned hhead⟩
  | negative hn =>
    obtain ⟨head, hhead⟩ := headOf_four 1 hn
    exact ⟨head, .negative hhead⟩
  | bytes hlength =>
    obtain ⟨head, hhead⟩ := headOf_four 2 hlength
    exact ⟨_, .bytes hhead⟩
  | text hlength =>
    obtain ⟨head, hhead⟩ := headOf_four 3 hlength
    exact ⟨_, .text hhead⟩
  | array hlength _ ih =>
    obtain ⟨items, rfl, hitems⟩ := exists_items ih
    rw [List.length_map] at hlength
    obtain ⟨head, hhead⟩ := headOf_four 4 hlength
    exact ⟨_, .array hhead hitems⟩
  | map hlength hnodup _ _ ihkey ihvalue =>
    obtain ⟨items, rfl, hkeys, hvalues⟩ := exists_entries ihkey ihvalue
    rw [List.length_map] at hlength
    rw [List.map_map] at hnodup
    obtain ⟨head, hhead⟩ := headOf_four 5 hlength
    exact ⟨_, .map hhead hkeys hvalues hnodup⟩

/-- A text in the value begins with the byte order mark. -/
inductive Marked : Cbor → Prop
  | text (s : List Char) : Marked (.text (mark :: s))
  | item {values : List Cbor} {value : Cbor} : value ∈ values → Marked value → Marked (.array values)
  | key {entries : List (CborKey × Cbor)} {entry : CborKey × Cbor} : entry ∈ entries → Marked entry.1.value →
      Marked (.map entries)
  | value {entries : List (CborKey × Cbor)} {entry : CborKey × Cbor} : entry ∈ entries → Marked entry.2 →
      Marked (.map entries)

theorem getElem?_behind (before bytes : List UInt8) (b : UInt8) :
    (before ++ b :: bytes)[before.length]? = some b := by
  rw [List.getElem?_append_right (Nat.le_refl _), Nat.sub_self, List.getElem?_cons_zero]

theorem drop_behind (before bytes : List UInt8) : (before ++ bytes).drop before.length = bytes := by
  rw [List.drop_append_of_le_length (Nat.le_refl _), List.drop_length, List.nil_append]

variable {major : Nat} {head : List UInt8}

theorem readHead_of (h : HeadOf major n head) (hmajor : major ≤ 5) (before after : List UInt8) :
    ∃ r, readHead (before ++ (head ++ after)) before.length = .ok r ∧ r.major = major ∧ r.number = n ∧
      r.next = before.length + head.length := by
  cases h with
  | short hn =>
    have hbyte : (UInt8.ofNat (major * 32 + n)).toNat = major * 32 + n := UInt8.toNat_ofNat_of_lt' (by
      change _ < 256
      omega)
    have hinfo : (major * 32 + n) &&& 31 = n := by
      rw [show 31 = 2 ^ 5 - 1 from rfl, Nat.and_two_pow_sub_one_eq_mod]
      omega
    have htop : (major * 32 + n) >>> 5 = major := by
      rw [Nat.shiftRight_eq_div_pow]
      omega
    refine ⟨⟨major, n, n, before.length + 1⟩, ?_, rfl, rfl, rfl⟩
    unfold readHead
    rw [List.singleton_append, getElem?_behind]
    dsimp only
    rw [hbyte, hinfo, htop, if_neg (by omega), if_pos hn]
  | wide k number hk hlength hnumber =>
    have hbyte : (UInt8.ofNat (major * 32 + 24 + k)).toNat = major * 32 + 24 + k := UInt8.toNat_ofNat_of_lt' (by
      change _ < 256
      omega)
    have hinfo : (major * 32 + 24 + k) &&& 31 = 24 + k := by
      rw [show 31 = 2 ^ 5 - 1 from rfl, Nat.and_two_pow_sub_one_eq_mod]
      omega
    have htop : (major * 32 + 24 + k) >>> 5 = major := by
      rw [Nat.shiftRight_eq_div_pow]
      omega
    have hok : ∃ r,
        readHead (before ++ (UInt8.ofNat (major * 32 + 24 + k) :: number ++ after)) before.length = .ok r ∧
        r.major = major ∧ r.info = 24 + k ∧ r.next = before.length + 1 + 2 ^ k := by
      unfold readHead
      rw [List.cons_append, getElem?_behind]
      dsimp only
      have hlen : (before ++ UInt8.ofNat (major * 32 + 24 + k) :: (number ++ after)).length =
          before.length + 1 + 2 ^ k + after.length := by
        rw [List.length_append, List.length_cons, List.length_append, hlength]
        omega
      rw [hbyte, hinfo, htop, if_neg (by omega), if_neg (by omega)]
      obtain rfl | rfl | rfl : k = 0 ∨ k = 1 ∨ k = 2 := by omega
      · rw [if_pos rfl, dif_neg (by omega)]
        exact ⟨_, rfl, rfl, rfl, rfl⟩
      · rw [if_neg (by omega), if_pos rfl, dif_neg (by omega)]
        exact ⟨_, rfl, rfl, rfl, rfl⟩
      · rw [if_neg (by omega), if_neg (by omega), if_pos rfl, dif_neg (by omega)]
        exact ⟨_, rfl, rfl, rfl, rfl⟩
    obtain ⟨r, hread, hm, hi, hnext⟩ := hok
    have hargument := ((readHead_number hread).2 (by omega)).2.1
    refine ⟨r, hread, hm, ?_, by rw [hnext, List.length_cons, hlength]; omega⟩
    rw [hargument, argument, hi, Nat.add_sub_cancel_left, ← hlength, List.cons_append, ← List.drop_drop,
      drop_behind, List.drop_one, List.tail_cons, List.take_append_of_le_length (Nat.le_refl _), List.take_length,
      hnumber]

/-! ### Reading an encoding back -/

theorem decodeText_utf8 (s : List Char) : decodeText lossy (utf8 s) = dropMark s := by
  unfold decodeText
  rw [show (utf8 s).toByteArray = s.utf8Encode from rfl, List.utf8Decode?_utf8Encode]

theorem dropMark_eq_iff (s : List Char) : dropMark s = s ↔ ¬Marked (.text s) := by
  cases s with
  | nil =>
    refine ⟨fun _ h => ?_, fun _ => rfl⟩
    cases h
  | cons c s =>
    change (if c = mark then s else c :: s) = c :: s ↔ _
    split_ifs with hc
    · subst hc
      exact ⟨fun h => absurd (congrArg List.length h) (by simp), fun h => absurd (Marked.text s) h⟩
    · refine ⟨fun _ h => ?_, fun _ => rfl⟩
      cases h
      exact hc rfl

/-- What the bytes of a value read as, wherever they stand. -/
def ReadsAs (lossy : List UInt8 → List Char) (bytes : List UInt8) (r : Cbor) : Prop :=
  ∀ before after, read lossy (before ++ (bytes ++ after)) before.length = .ok (r, before.length + bytes.length)

/-- The bytes of a value are read, and as that value exactly when no text in it is marked; a key is read as a key. -/
def Heard (lossy : List UInt8 → List Char) (value : Cbor) (bytes : List UInt8) : Prop :=
  ∃ r, ReadsAs lossy bytes r ∧ (r = value ↔ ¬Marked value) ∧
    ∀ key : CborKey, value = key.value → ∃ k : CborKey, r = k.value

variable {bytes : List UInt8}

theorem ReadsAs.behind {r : Cbor} (h : ReadsAs lossy bytes r) (before read after : List UInt8) :
    Cbor.read lossy (before ++ (read ++ (bytes ++ after))) (before.length + read.length) =
      .ok (r, before.length + read.length + bytes.length) := by
  have happ := h (before ++ read) after
  rwa [List.append_assoc, List.length_append] at happ

theorem values_heard {items : List (Cbor × List UInt8)} (h : ∀ item ∈ items, Heard lossy item.1 item.2) :
    ∃ rs, (∀ before after values, valuesFrom lossy (before ++ (items.flatMap (·.2) ++ after)) before.length
        items.length values = .ok (values ++ rs, before.length + (items.flatMap (·.2)).length)) ∧
      (rs = items.map (·.1) ↔ ∀ item ∈ items, ¬Marked item.1) := by
  induction items with
  | nil =>
    refine ⟨[], fun before after values => ?_, by simp⟩
    rw [List.append_nil]
    exact valuesFrom_zero values
  | cons item items ih =>
    obtain ⟨r, hr, hiff, _⟩ := h item List.mem_cons_self
    obtain ⟨rs, hrs, hiffs⟩ := ih fun item hi => h item (List.mem_cons_of_mem _ hi)
    refine ⟨r :: rs, fun before after values => ?_, ?_⟩
    · have hrest := hrs (before ++ item.2) after (values ++ [r])
      rw [List.flatMap_cons, List.append_assoc, List.length_cons, valuesFrom_succ values (hr before _)]
      rw [List.append_assoc, List.length_append] at hrest
      rw [hrest, List.append_assoc, List.singleton_append, List.length_append, Nat.add_assoc]
    · rw [List.map_cons, List.cons.injEq, hiff, hiffs, List.forall_mem_cons]

theorem mapSet_length_le (key : CborKey) (value : Cbor) (map : List (CborKey × Cbor)) :
    (mapSet key value map).length ≤ map.length + 1 := by
  induction map with
  | nil => exact Nat.le_refl _
  | cons entry map ih =>
    rw [mapSet]
    split_ifs
    · exact Nat.le_succ _
    · exact Nat.succ_le_succ ih

variable {key : CborKey} {map : List (CborKey × Cbor)}

theorem mapSet_of_length (h : (mapSet key value map).length = map.length + 1) :
    mapSet key value map = map ++ [(key, value)] := by
  induction map with
  | nil => rfl
  | cons entry map ih =>
    rw [mapSet] at h ⊢
    split_ifs at h ⊢
    · exact absurd h (by simp)
    · rw [ih (Nat.succ.inj h)]
      rfl

theorem mapSet_of_not_mem (value : Cbor) (h : key ∉ map.map (·.1)) :
    mapSet key value map = map ++ [(key, value)] := by
  induction map with
  | nil => rfl
  | cons entry map ih =>
    rw [List.map_cons, List.mem_cons, not_or] at h
    rw [mapSet, if_neg fun he => h.1 he.symm, ih h.2]
    rfl

theorem setAll_length_le (pairs : List (CborKey × Cbor)) (map : List (CborKey × Cbor)) :
    (setAll map pairs).length ≤ map.length + pairs.length := by
  induction pairs generalizing map with
  | nil => exact Nat.le_refl _
  | cons pair pairs ih =>
    have hle := ih (mapSet pair.1 pair.2 map)
    have hset := mapSet_length_le pair.1 pair.2 map
    rw [List.length_cons]
    exact Nat.le_trans hle (by omega)

variable {pairs : List (CborKey × Cbor)}

theorem setAll_of_length (h : (setAll map pairs).length = map.length + pairs.length) :
    setAll map pairs = map ++ pairs := by
  induction pairs generalizing map with
  | nil => exact (List.append_nil map).symm
  | cons pair pairs ih =>
    have hle := setAll_length_le pairs (mapSet pair.1 pair.2 map)
    have hset := mapSet_length_le pair.1 pair.2 map
    change (setAll (mapSet pair.1 pair.2 map) pairs).length = _ at h
    rw [List.length_cons] at h
    have hlast : (mapSet pair.1 pair.2 map).length = map.length + 1 := by omega
    change setAll (mapSet pair.1 pair.2 map) pairs = _
    rw [ih (by omega), mapSet_of_length hlast, List.append_assoc, List.singleton_append]

theorem setAll_of_nodup (h : ((map ++ pairs).map (·.1)).Nodup) : setAll map pairs = map ++ pairs := by
  induction pairs generalizing map with
  | nil => exact (List.append_nil map).symm
  | cons pair pairs ih =>
    have hnew : pair.1 ∉ map.map (·.1) := by
      rw [List.map_append, List.nodup_append] at h
      exact fun hm => h.2.2 _ hm _ (List.mem_map_of_mem List.mem_cons_self) rfl
    change setAll (mapSet pair.1 pair.2 map) pairs = _
    rw [mapSet_of_not_mem _ hnew, ih (by rwa [List.append_assoc, List.singleton_append]), List.append_assoc,
      List.singleton_append]

theorem entries_heard {items : List ((CborKey × Cbor) × List UInt8 × List UInt8)}
    (hkey : ∀ item ∈ items, Heard lossy item.1.1.value item.2.1)
    (hvalue : ∀ item ∈ items, Heard lossy item.1.2 item.2.2) :
    ∃ pairs : List (CborKey × Cbor), (∀ before after map,
        entriesFrom lossy (before ++ (items.flatMap (fun item => item.2.1 ++ item.2.2) ++ after)) before.length
          items.length map =
        .ok (setAll map pairs, before.length + (items.flatMap fun item => item.2.1 ++ item.2.2).length)) ∧
      pairs.length = items.length ∧
      (pairs = items.map (·.1) ↔ ∀ item ∈ items, ¬Marked item.1.1.value ∧ ¬Marked item.1.2) := by
  induction items with
  | nil =>
    refine ⟨[], fun before after map => ?_, rfl, by simp⟩
    exact entriesFrom_zero map
  | cons item items ih =>
    obtain ⟨k, hk, hkiff, hkvalue⟩ := hkey item List.mem_cons_self
    obtain ⟨v, hv, hviff, _⟩ := hvalue item List.mem_cons_self
    obtain ⟨key, rfl⟩ := hkvalue _ rfl
    obtain ⟨pairs, hpairs, hlength, hiff⟩ := ih (fun item hi => hkey item (List.mem_cons_of_mem _ hi))
      fun item hi => hvalue item (List.mem_cons_of_mem _ hi)
    refine ⟨(key, v) :: pairs, fun before after map => ?_, congrArg Nat.succ hlength, ?_⟩
    · have hrest := hpairs (before ++ (item.2.1 ++ item.2.2)) after (mapSet key v map)
      rw [List.flatMap_cons, List.append_assoc, List.append_assoc, List.length_cons,
        entriesFrom_succ map (hk before _) (hv.behind before _ _)]
      rw [List.append_assoc, List.append_assoc, List.length_append, List.length_append, ← Nat.add_assoc] at hrest
      rw [hrest]
      simp only [List.length_append, Nat.add_assoc]
      rfl
    · have hinj : key.value = item.1.1.value ↔ key = item.1.1 :=
        ⟨fun h => by
          have hkeys := congrArg key? h
          rw [key?_value, key?_value] at hkeys
          exact Option.some.inj hkeys, fun h => congrArg _ h⟩
      rw [List.map_cons, List.cons.injEq, hiff, List.forall_mem_cons, Prod.ext_iff, ← hinj, hkiff, hviff]

theorem heard_head (lossy : List UInt8 → List Char) (hhead : HeadOf major n head) (hmajor : major ≤ 5)
    (before after : List UInt8) :
    ∃ r : Head, r.major = major ∧ r.number = n ∧ r.next = before.length + head.length ∧
      read lossy (before ++ (head ++ after)) before.length = body lossy (before ++ (head ++ after)) r := by
  obtain ⟨r, hr, hm, hn, hnext⟩ := readHead_of hhead hmajor before after
  exact ⟨r, hm, hn, hnext, by rw [read_eq, hr]⟩

theorem readsAs_number (hhead : HeadOf major n head) {k : Int}
    (hk : major = 0 ∧ k = n ∨ major = 1 ∧ k = -1 - n) : ReadsAs lossy head (.number k) := by
  intro before after
  obtain ⟨r, hm, hn, hnext, hread⟩ := heard_head lossy hhead (by omega) before after
  rw [hread, body, hm, hn, hnext]
  obtain ⟨rfl, rfl⟩ | ⟨rfl, rfl⟩ := hk
  · rfl
  · rfl

theorem readsAs_slice (lossy : List UInt8 → List Char) {slice : List UInt8}
    (hhead : HeadOf major slice.length head) (hmajor : major = 2 ∨ major = 3) :
    ReadsAs lossy (head ++ slice) (if major = 2 then .bytes slice else .text (decodeText lossy slice)) := by
  intro before after
  obtain ⟨r, hm, hn, hnext, hread⟩ := heard_head lossy hhead (by omega) before (slice ++ after)
  have hstop : before.length + head.length + slice.length = (before ++ (head ++ slice)).length := by
    rw [List.length_append, List.length_append, Nat.add_assoc]
  have happ : before ++ (head ++ (slice ++ after)) = before ++ (head ++ slice) ++ after := by
    simp only [List.append_assoc]
  have hslice : ((before ++ (head ++ (slice ++ after))).take (before.length + head.length + slice.length)).drop
      (before.length + head.length) = slice := by
    rw [happ, hstop, List.take_append_of_le_length (Nat.le_refl _), List.take_length, ← List.append_assoc,
      ← List.length_append, drop_behind]
  rw [List.append_assoc, hread, body, hm, hn, hnext, if_neg (by omega), if_neg (by omega), if_pos hmajor,
    if_neg (by rw [happ, hstop, List.length_append]; omega)]
  dsimp only
  rw [hslice, List.length_append, Nat.add_assoc]

theorem Encodes.heard (lossy : List UInt8 → List Char) (h : Encodes value bytes) : Heard lossy value bytes := by
  induction h with
  | @unsigned n head hhead =>
    refine ⟨.number n, readsAs_number hhead (.inl ⟨rfl, rfl⟩), ⟨fun _ hm => ?_, fun _ => rfl⟩,
      fun _ _ => ⟨.number n, rfl⟩⟩
    cases hm
  | @negative n head hhead =>
    refine ⟨.number (-1 - n), readsAs_number hhead (.inr ⟨rfl, rfl⟩), ⟨fun _ hm => ?_, fun _ => rfl⟩,
      fun _ _ => ⟨.number (-1 - n), rfl⟩⟩
    cases hm
  | @bytes b head hhead =>
    refine ⟨.bytes b, readsAs_slice lossy hhead (.inl rfl), ⟨fun _ hm => ?_, fun _ => rfl⟩, fun key hk => ?_⟩
    · cases hm
    · cases key <;> cases hk
  | @text s head hhead =>
    have hread := readsAs_slice lossy hhead (.inr rfl)
    rw [decodeText_utf8] at hread
    refine ⟨.text (dropMark s), hread, ?_, fun _ _ => ⟨.text (dropMark s), rfl⟩⟩
    rw [Cbor.text.injEq, dropMark_eq_iff]
  | @array items head hhead _ ih =>
    obtain ⟨rs, hrs, hiff⟩ := values_heard ih
    refine ⟨.array rs, fun before after => ?_, ?_, fun key hk => ?_⟩
    · obtain ⟨r, hm, hn, hnext, hread⟩ := heard_head lossy hhead (by omega) before
        (items.flatMap (·.2) ++ after)
      have hvalues := hrs (before ++ head) after []
      rw [List.append_assoc, List.length_append] at hvalues
      rw [List.append_assoc, hread, body, hm, hn, hnext]
      simp only [Nat.reduceEqDiff, or_self, if_false, if_true]
      rw [hvalues, List.length_append, ← Nat.add_assoc]
      rfl
    · rw [Cbor.array.injEq, hiff]
      refine ⟨fun hall hmarked => ?_, fun hfree item hi hmarked => hfree (.item (List.mem_map_of_mem hi) hmarked)⟩
      cases hmarked with
      | item hi hmarked =>
        obtain ⟨item, hitem, rfl⟩ := List.mem_map.mp hi
        exact hall item hitem hmarked
    · cases key <;> cases hk
  | @map items head hhead _ _ hnodup ihkey ihvalue =>
    obtain ⟨pairs, hpairs, hlength, hiff⟩ := entries_heard ihkey ihvalue
    refine ⟨.map (setAll [] pairs), fun before after => ?_, ?_, fun key hk => ?_⟩
    · obtain ⟨r, hm, hn, hnext, hread⟩ := heard_head lossy hhead (by omega) before
        (items.flatMap (fun item => item.2.1 ++ item.2.2) ++ after)
      have hentries := hpairs (before ++ head) after []
      rw [List.append_assoc, List.length_append] at hentries
      rw [List.append_assoc, hread, body, hm, hn, hnext]
      simp only [Nat.reduceEqDiff, or_self, if_false]
      rw [hentries, List.length_append, ← Nat.add_assoc]
      rfl
    · have hset : setAll [] pairs = items.map (·.1) ↔ pairs = items.map (·.1) := by
        constructor
        · intro h
          rw [← h, setAll_of_length (by rw [h, List.length_map, hlength, List.length_nil, Nat.zero_add])]
          rfl
        · intro h
          rw [setAll_of_nodup, h]
          · rfl
          · rwa [List.nil_append, h, List.map_map]
      rw [Cbor.map.injEq, hset, hiff]
      refine ⟨fun hall hmarked => ?_, fun hfree item hi =>
        ⟨fun hmarked => hfree (.key (List.mem_map_of_mem hi) hmarked),
          fun hmarked => hfree (.value (List.mem_map_of_mem hi) hmarked)⟩⟩
      cases hmarked with
      | key hi hmarked =>
        obtain ⟨item, hitem, rfl⟩ := List.mem_map.mp hi
        exact (hall item hitem).1 hmarked
      | value hi hmarked =>
        obtain ⟨item, hitem, rfl⟩ := List.mem_map.mp hi
        exact (hall item hitem).2 hmarked
    · cases key <;> cases hk

/-! ### Main results -/

/-- What is read lies in bounds and behind a head whose number is big-endian. Every supported value has encodings, and
each of them is read back, wherever it stands, exactly when no text in the value begins with the mark. -/
theorem read_exact (lossy : List UInt8 → List Char) :
    (∀ (buf : List UInt8) (offset : Nat) (value : Cbor) (next : Nat), read lossy buf offset = .ok (value, next) →
      offset < next ∧ next ≤ buf.length ∧
        ∃ head : Head, readHead buf offset = .ok head ∧ head.Numbered buf offset ∧ Spelled head next value) ∧
    ∀ value, Supported value → (∃ bytes, Encodes value bytes) ∧ ∀ bytes, Encodes value bytes →
      ∀ before after, (read lossy (before ++ (bytes ++ after)) before.length =
        .ok (value, before.length + bytes.length) ↔ ¬Marked value) := by
  refine ⟨fun buf offset value next h => ?_, fun value hvalue =>
    ⟨hvalue.encodes, fun bytes hbytes before after => ?_⟩⟩
  · obtain ⟨head, hhead, hspelled⟩ := read_spelled h
    have hbounds := read_bounds h
    exact ⟨hbounds.1, hbounds.2, head, hhead, readHead_number hhead, hspelled⟩
  · obtain ⟨r, hr, hiff, _⟩ := hbytes.heard lossy
    rw [hr before after, ← hiff, Except.ok.injEq, Prod.mk.injEq]
    exact and_iff_left rfl

/-- The array of a number and of a text is read back behind any bytes. -/
theorem read_exact_array : ∀ before : List UInt8,
    read (fun _ => []) (before ++ ([0x82, 0x19, 0x01, 0x00, 0x61, 0x61] ++ [])) before.length =
      .ok (.array [.number 256, .text ['a']], before.length + 6) := by
  have hnumber : Encodes (.number (256 : Nat)) [0x19, 0x01, 0x00] :=
    .unsigned (.wide 1 [0x01, 0x00] (by decide) rfl (by decide))
  have htext : Encodes (.text ['a']) [0x61, 0x61] := @Encodes.text ['a'] [0x61] (.short (by decide))
  have harray : Encodes (.array [.number (256 : Nat), .text ['a']]) [0x82, 0x19, 0x01, 0x00, 0x61, 0x61] :=
    @Encodes.array [(.number (256 : Nat), [0x19, 0x01, 0x00]), (.text ['a'], [0x61, 0x61])] [0x82]
      (.short (by decide)) (by
        rintro item (_ | ⟨_, _ | ⟨_, hi⟩⟩)
        · exact hnumber
        · exact htext
        · cases hi)
  have hsupported : Supported (.array [.number (256 : Nat), .text ['a']]) :=
    .array (by decide) (by
      rintro value (_ | ⟨_, _ | ⟨_, hv⟩⟩)
      · exact .unsigned (by decide)
      · exact .text (by decide)
      · cases hv)
  refine fun before => (((read_exact fun _ => []).2 _ hsupported).2 _ harray before []).mpr fun hmarked => ?_
  cases hmarked with
  | item hi hmarked =>
    obtain _ | ⟨_, _ | ⟨_, hi⟩⟩ := hi
    · cases hmarked
    · exact absurd hmarked fun h => by
        generalize hs : ['a'] = s at h
        cases h
        exact absurd (List.cons.inj hs).1 (by decide)
    · cases hi

/-- A text that begins with the mark is read without it. -/
theorem read_drops_mark : Encodes (.text [mark, 'a']) [0x64, 0xEF, 0xBB, 0xBF, 0x61] ∧
    (∀ lossy : List UInt8 → List Char, read lossy [0x64, 0xEF, 0xBB, 0xBF, 0x61] 0 = .ok (.text ['a'], 5)) ∧
    Cbor.text ['a'] ≠ .text [mark, 'a'] := by
  have hhead : HeadOf 3 (utf8 [mark, 'a']).length [0x64] := .short (by decide)
  refine ⟨.text hhead, fun lossy => ?_, fun h => ?_⟩
  · have hread := readsAs_slice lossy hhead (.inr rfl) [] []
    rw [decodeText_utf8] at hread
    exact hread
  · exact absurd (Cbor.text.inj h) (by decide)

end Cbor

end Sightr
