import Mathlib.Data.List.Basic
import Mathlib.Tactic.SplitIfs
import Mathlib.Algebra.Order.Ring.Int

/-!
# Reading CBOR

`readCbor` of `bridge/webauthn.ts`: a recursive descent over bytes that anyone may have sent. Every result carries the
position behind it, which lies behind where the reading began and within the bytes.
-/

namespace Sightr

inductive CborKey
  | number (n : Int)
  | text (s : List Char)
  deriving DecidableEq

/-- The values; the entries of a map stand in insertion order. -/
inductive Cbor
  | number (n : Int)
  | bytes (b : List UInt8)
  | text (s : List Char)
  | array (values : List Cbor)
  | map (entries : List (CborKey × Cbor))

def CborKey.value : CborKey → Cbor
  | .number n => .number n
  | .text s => .text s

namespace Cbor

def key? : Cbor → Option CborKey
  | .number n => some (.number n)
  | .text s => some (.text s)
  | _ => none

/-- `map.set`: an entry that is there keeps its place. -/
def mapSet (key : CborKey) (value : Cbor) : List (CborKey × Cbor) → List (CborKey × Cbor)
  | [] => [(key, value)]
  | entry :: rest => if entry.1 = key then (key, value) :: rest else entry :: mapSet key value rest

def setAll (map pairs : List (CborKey × Cbor)) : List (CborKey × Cbor) :=
  pairs.foldl (fun map pair => mapSet pair.1 pair.2 map) map

/-! ### The head of a value -/

structure Head where
  major : Nat
  info : Nat
  number : Nat
  next : Nat
  deriving DecidableEq

/-- The first byte, and the number in it or in the bytes after it; every index carries its bound. No shifted byte
reaches the sign bit of a 32-bit integer. -/
def readHead (buf : List UInt8) (offset : Nat) : Except String Head :=
  match buf[offset]? with
  | none => .error "truncated"
  | some first =>
    let major := first.toNat >>> 5
    let info := first.toNat &&& 31
    let offset := offset + 1
    if info = 31 ∨ 5 < major then .error "unsupported cbor"
    else if info < 24 then .ok ⟨major, info, info, offset⟩
    else if info = 24 then
      if h : buf.length ≤ offset then .error "truncated" else .ok ⟨major, info, buf[offset].toNat, offset + 1⟩
    else if info = 25 then
      if h : buf.length < offset + 2 then .error "truncated"
      else .ok ⟨major, info, (buf[offset].toNat <<< 8) ||| buf[offset + 1].toNat, offset + 2⟩
    else if info = 26 then
      if h : buf.length < offset + 4 then .error "truncated"
      else .ok ⟨major, info, buf[offset].toNat * 0x1000000 + (buf[offset + 1].toNat <<< 16) +
        (buf[offset + 2].toNat <<< 8) + buf[offset + 3].toNat, offset + 4⟩
    else .error "unsupported integer"

variable {buf : List UInt8} {offset : Nat} {head : Head}

theorem readHead_bounds (h : readHead buf offset = .ok head) : offset < head.next ∧ head.next ≤ buf.length := by
  unfold readHead at h
  cases hfirst : buf[offset]? with
  | none =>
    rw [hfirst] at h
    cases h
  | some first =>
    rw [hfirst] at h
    have hlt := (List.getElem?_eq_some_iff.mp hfirst).1
    dsimp only at h
    split_ifs at h <;> obtain rfl := Except.ok.inj h <;> constructor <;> dsimp only <;> omega

theorem readHead_major (h : readHead buf offset = .ok head) : head.major ≤ 5 := by
  unfold readHead at h
  cases hfirst : buf[offset]? with
  | none =>
    rw [hfirst] at h
    cases h
  | some first =>
    rw [hfirst] at h
    dsimp only at h
    split_ifs at h <;> obtain rfl := Except.ok.inj h <;> dsimp only <;> omega

def bigEndian (bytes : List UInt8) : Nat := bytes.foldl (fun n b => n * 256 + b.toNat) 0

/-- The bytes that carry the number of a head, which an `info` from 24 on announces. -/
def argument (buf : List UInt8) (offset info : Nat) : List UInt8 := (buf.drop (offset + 1)).take (2 ^ (info - 24))

theorem take_drop_cons {i n : Nat} (h : i < buf.length) :
    (buf.drop i).take (n + 1) = buf[i] :: (buf.drop (i + 1)).take n := by
  rw [List.drop_eq_getElem_cons h, List.take_succ_cons]

/-- A short number stands in the first byte; a wider one is the big-endian value of the one, two or four bytes that
follow. -/
def Head.Numbered (buf : List UInt8) (offset : Nat) (head : Head) : Prop :=
  (head.info < 24 → head.number = head.info ∧ head.next = offset + 1) ∧
    (24 ≤ head.info → head.info ≤ 26 ∧ head.number = bigEndian (argument buf offset head.info) ∧
      (argument buf offset head.info).length = 2 ^ (head.info - 24) ∧ head.next = offset + 1 + 2 ^ (head.info - 24))

theorem readHead_number (h : readHead buf offset = .ok head) : head.Numbered buf offset := by
  unfold Head.Numbered
  unfold readHead at h
  cases hfirst : buf[offset]? with
  | none =>
    rw [hfirst] at h
    cases h
  | some first =>
    rw [hfirst] at h
    dsimp only at h
    have hbyte : ∀ b : UInt8, b.toNat < 256 := fun b => b.toNat_lt
    split_ifs at h with _ hshort hone hroom htwo hroom hfour hroom <;> obtain rfl := Except.ok.inj h <;> dsimp only
    · exact ⟨fun _ => ⟨rfl, rfl⟩, fun hwide => absurd hshort (by omega)⟩
    · refine ⟨fun hlt => absurd hlt (by omega), fun _ => ⟨by omega, ?_⟩⟩
      rw [argument, hone, show 2 ^ (24 - 24) = 0 + 1 from rfl, take_drop_cons (by omega)]
      simp [bigEndian]
    · refine ⟨fun hlt => absurd hlt (by omega), fun _ => ⟨by omega, ?_⟩⟩
      rw [argument, htwo, show 2 ^ (25 - 24) = 0 + 1 + 1 from rfl, take_drop_cons (by omega),
        take_drop_cons (by omega), ← Nat.shiftLeft_add_eq_or_of_lt (hbyte _)]
      simp [bigEndian, Nat.shiftLeft_eq]
    · refine ⟨fun hlt => absurd hlt (by omega), fun _ => ⟨by omega, ?_⟩⟩
      rw [argument, hfour, show 2 ^ (26 - 24) = 0 + 1 + 1 + 1 + 1 from rfl, take_drop_cons (by omega),
        take_drop_cons (by omega), take_drop_cons (by omega), take_drop_cons (by omega)]
      simp [bigEndian, Nat.shiftLeft_eq, Nat.add_assoc]
      omega

/-! ### The reader -/

/-- The byte order mark, which `TextDecoder` drops where a text begins with it. -/
def mark : Char := Char.ofNat 0xFEFF

def dropMark : List Char → List Char
  | c :: s => if c = mark then s else c :: s
  | [] => []

def decodeText (lossy : List UInt8 → List Char) (bytes : List UInt8) : List Char :=
  match bytes.toByteArray.utf8Decode? with
  | some s => dropMark s.toList
  | none => lossy bytes

variable (lossy : List UInt8 → List Char)

mutual

def readCbor (buf : List UInt8) (offset : Nat) :
    Except String { r : Cbor × Nat // offset < r.2 ∧ r.2 ≤ buf.length } :=
  match hhead : readHead buf offset with
  | .error e => .error e
  | .ok head =>
    have hbounds := readHead_bounds hhead
    if head.major = 0 then .ok ⟨(.number head.number, head.next), hbounds⟩
    else if head.major = 1 then .ok ⟨(.number (-1 - head.number), head.next), hbounds⟩
    else if head.major = 2 ∨ head.major = 3 then
      let stop := head.next + head.number
      if hstop : buf.length < stop then .error "truncated"
      else
        let slice := (buf.take stop).drop head.next
        .ok ⟨(if head.major = 2 then .bytes slice else .text (decodeText lossy slice), stop),
          ⟨Nat.lt_of_lt_of_le hbounds.1 (Nat.le_add_right _ _), Nat.le_of_not_lt hstop⟩⟩
    else if head.major = 4 then
      match readValues buf head.next head.number [] with
      | .error e => .error e
      | .ok r => .ok ⟨(.array r.1.1, r.1.2), ⟨Nat.lt_of_lt_of_le hbounds.1 r.2.1, r.2.2 hbounds.2⟩⟩
    else
      match readEntries buf head.next head.number [] with
      | .error e => .error e
      | .ok r => .ok ⟨(.map r.1.1, r.1.2), ⟨Nat.lt_of_lt_of_le hbounds.1 r.2.1, r.2.2 hbounds.2⟩⟩
termination_by (buf.length - offset, 0)

def readValues (buf : List UInt8) (offset count : Nat) (values : List Cbor) :
    Except String { r : List Cbor × Nat // offset ≤ r.2 ∧ (offset ≤ buf.length → r.2 ≤ buf.length) } :=
  match count with
  | 0 => .ok ⟨(values, offset), ⟨Nat.le_refl _, id⟩⟩
  | count + 1 =>
    match readCbor buf offset with
    | .error e => .error e
    | .ok value =>
      match readValues buf value.1.2 count (values ++ [value.1.1]) with
      | .error e => .error e
      | .ok r => .ok ⟨r.1, ⟨Nat.le_trans (Nat.le_of_lt value.2.1) r.2.1, fun _ => r.2.2 value.2.2⟩⟩
termination_by (buf.length - offset, count)

def readEntries (buf : List UInt8) (offset count : Nat) (map : List (CborKey × Cbor)) :
    Except String { r : List (CborKey × Cbor) × Nat // offset ≤ r.2 ∧ (offset ≤ buf.length → r.2 ≤ buf.length) } :=
  match count with
  | 0 => .ok ⟨(map, offset), ⟨Nat.le_refl _, id⟩⟩
  | count + 1 =>
    match readCbor buf offset with
    | .error e => .error e
    | .ok key =>
      match readCbor buf key.1.2 with
      | .error e => .error e
      | .ok value =>
        match key.1.1.key? with
        | none => .error "bad key"
        | some k =>
          match readEntries buf value.1.2 count (mapSet k value.1.1 map) with
          | .error e => .error e
          | .ok r => .ok ⟨r.1, ⟨Nat.le_trans (Nat.le_of_lt (Nat.lt_trans key.2.1 value.2.1)) r.2.1,
              fun _ => r.2.2 value.2.2⟩⟩
termination_by (buf.length - offset, count)

end

/-! ### The reader without its bounds -/

def read (buf : List UInt8) (offset : Nat) : Except String (Cbor × Nat) := (readCbor lossy buf offset).map (·.1)

def valuesFrom (buf : List UInt8) (offset count : Nat) (values : List Cbor) : Except String (List Cbor × Nat) :=
  (readValues lossy buf offset count values).map (·.1)

def entriesFrom (buf : List UInt8) (offset count : Nat) (map : List (CborKey × Cbor)) :
    Except String (List (CborKey × Cbor) × Nat) :=
  (readEntries lossy buf offset count map).map (·.1)

variable {lossy} {buf : List UInt8} {offset : Nat}

variable {value : Cbor} {next : Nat}

theorem read_bounds (h : read lossy buf offset = .ok (value, next)) : offset < next ∧ next ≤ buf.length := by
  unfold read at h
  cases hread : readCbor lossy buf offset with
  | error e =>
    rw [hread] at h
    cases h
  | ok r =>
    rw [hread] at h
    have hbounds := r.2
    rw [show r.1 = (value, next) from Except.ok.inj h] at hbounds
    exact hbounds

def body (lossy : List UInt8 → List Char) (buf : List UInt8) (head : Head) : Except String (Cbor × Nat) :=
  if head.major = 0 then .ok (.number head.number, head.next)
  else if head.major = 1 then .ok (.number (-1 - head.number), head.next)
  else if head.major = 2 ∨ head.major = 3 then
    if buf.length < head.next + head.number then .error "truncated"
    else
      let slice := (buf.take (head.next + head.number)).drop head.next
      .ok (if head.major = 2 then .bytes slice else .text (decodeText lossy slice), head.next + head.number)
  else if head.major = 4 then
    (valuesFrom lossy buf head.next head.number []).map fun r => (.array r.1, r.2)
  else (entriesFrom lossy buf head.next head.number []).map fun r => (.map r.1, r.2)

theorem read_eq (buf : List UInt8) (offset : Nat) : read lossy buf offset = match readHead buf offset with
    | .error e => .error e
    | .ok head => body lossy buf head := by
  unfold read
  rw [readCbor]
  split
  · next e hhead =>
    conv_rhs => rw [hhead]
    rfl
  · next head hhead =>
    conv_rhs => rw [hhead]
    dsimp only
    unfold body valuesFrom entriesFrom
    split_ifs
    · rfl
    · rfl
    · rfl
    · rfl
    · rfl
    · cases readValues lossy buf head.next head.number [] <;> rfl
    · cases readEntries lossy buf head.next head.number [] <;> rfl

theorem valuesFrom_zero (values : List Cbor) : valuesFrom lossy buf offset 0 values = .ok (values, offset) := by
  unfold valuesFrom
  rw [readValues]
  rfl

variable {count : Nat}

theorem valuesFrom_succ (values : List Cbor) (h : read lossy buf offset = .ok (value, next)) :
    valuesFrom lossy buf offset (count + 1) values = valuesFrom lossy buf next count (values ++ [value]) := by
  unfold read at h
  unfold valuesFrom
  rw [readValues]
  cases hread : readCbor lossy buf offset with
  | error e =>
    rw [hread] at h
    cases h
  | ok r =>
    obtain ⟨r, hr⟩ := r
    rw [hread] at h
    obtain rfl : r = (value, next) := Except.ok.inj h
    dsimp only
    cases readValues lossy buf next count (values ++ [value]) <;> rfl

theorem valuesFrom_error {e : String} (values : List Cbor) (h : read lossy buf offset = .error e) :
    valuesFrom lossy buf offset (count + 1) values = .error e := by
  unfold read at h
  unfold valuesFrom
  rw [readValues]
  cases hread : readCbor lossy buf offset with
  | error e' =>
    rw [hread] at h
    obtain rfl : e' = e := Except.error.inj h
    rfl
  | ok r =>
    rw [hread] at h
    cases h

theorem entriesFrom_zero (map : List (CborKey × Cbor)) : entriesFrom lossy buf offset 0 map = .ok (map, offset) := by
  unfold entriesFrom
  rw [readEntries]
  rfl

theorem key?_value (key : CborKey) : key.value.key? = some key := by
  cases key <;> rfl

variable {key : CborKey}

theorem value_of_key? (h : value.key? = some key) : value = key.value := by
  cases value with
  | number n => cases h; rfl
  | text s => cases h; rfl
  | bytes b => cases h
  | array values => cases h
  | map entries => cases h

theorem entriesFrom_succ {middle : Nat} (map : List (CborKey × Cbor))
    (hkey : read lossy buf offset = .ok (key.value, middle)) (hvalue : read lossy buf middle = .ok (value, next)) :
    entriesFrom lossy buf offset (count + 1) map = entriesFrom lossy buf next count (mapSet key value map) := by
  unfold read at hkey hvalue
  unfold entriesFrom
  rw [readEntries]
  cases hk : readCbor lossy buf offset with
  | error e =>
    rw [hk] at hkey
    cases hkey
  | ok k =>
    obtain ⟨k, _⟩ := k
    rw [hk] at hkey
    obtain rfl : k = (key.value, middle) := Except.ok.inj hkey
    dsimp only
    cases hv : readCbor lossy buf middle with
    | error e =>
      rw [hv] at hvalue
      cases hvalue
    | ok v =>
      obtain ⟨v, _⟩ := v
      rw [hv] at hvalue
      obtain rfl : v = (value, next) := Except.ok.inj hvalue
      dsimp only
      rw [key?_value]
      dsimp only
      cases readEntries lossy buf next count (mapSet key value map) <;> rfl

variable {map : List (CborKey × Cbor)}

theorem entriesFrom_reads {result : List (CborKey × Cbor) × Nat}
    (h : entriesFrom lossy buf offset (count + 1) map = .ok result) :
    ∃ (key : CborKey) (middle : Nat) (value : Cbor) (behind : Nat),
      read lossy buf offset = .ok (key.value, middle) ∧ read lossy buf middle = .ok (value, behind) := by
  unfold entriesFrom at h
  rw [readEntries] at h
  cases hkey : readCbor lossy buf offset with
  | error e =>
    rw [hkey] at h
    cases h
  | ok key =>
    rw [hkey] at h
    dsimp only at h
    cases hvalue : readCbor lossy buf key.1.2 with
    | error e =>
      rw [hvalue] at h
      cases h
    | ok value =>
      rw [hvalue] at h
      dsimp only at h
      cases hk : key.1.1.key? with
      | none =>
        rw [hk] at h
        cases h
      | some k =>
        refine ⟨k, key.1.2, value.1.1, value.1.2, ?_, ?_⟩
        · rw [read, hkey, ← value_of_key? hk]
          rfl
        · rw [read, hvalue]
          rfl

/-- What a value tells of the head that it was read behind. -/
def Spelled (head : Head) (next : Nat) : Cbor → Prop
  | .number n => next = head.next ∧ (head.major = 0 ∧ n = head.number ∨ head.major = 1 ∧ n = -1 - head.number)
  | .bytes b => head.major = 2 ∧ b.length = head.number ∧ next = head.next + head.number
  | .text _ => head.major = 3 ∧ next = head.next + head.number
  | .array values => head.major = 4 ∧ values.length = head.number
  | .map entries => head.major = 5 ∧ ∃ pairs, pairs.length = head.number ∧ entries = setAll [] pairs

theorem valuesFrom_length {values result : List Cbor}
    (h : valuesFrom lossy buf offset count values = .ok (result, next)) : result.length = values.length + count := by
  induction count generalizing offset values with
  | zero =>
    rw [valuesFrom_zero] at h
    cases h
    rfl
  | succ count ih =>
    cases hread : read lossy buf offset with
    | error e => rw [valuesFrom_error values hread] at h; cases h
    | ok r =>
      rw [valuesFrom_succ values hread] at h
      rw [ih h, List.length_append, List.length_singleton, Nat.add_right_comm, Nat.add_assoc]

theorem entriesFrom_pairs {result : List (CborKey × Cbor)}
    (h : entriesFrom lossy buf offset count map = .ok (result, next)) :
    ∃ pairs, pairs.length = count ∧ result = setAll map pairs := by
  induction count generalizing offset map with
  | zero =>
    rw [entriesFrom_zero] at h
    cases h
    exact ⟨[], rfl, rfl⟩
  | succ count ih =>
    obtain ⟨key, middle, value, behind, hkey, hvalue⟩ := entriesFrom_reads h
    rw [entriesFrom_succ map hkey hvalue] at h
    obtain ⟨pairs, hlength, hresult⟩ := ih h
    exact ⟨(key, value) :: pairs, congrArg Nat.succ hlength, hresult⟩

/-- The number in the head is the value's own, its length, or the count of its parts. -/
theorem read_spelled (h : read lossy buf offset = .ok (value, next)) :
    ∃ head, readHead buf offset = .ok head ∧ Spelled head next value := by
  rw [read_eq] at h
  cases hhead : readHead buf offset with
  | error e =>
    rw [hhead] at h
    cases h
  | ok head =>
    have hmajor := readHead_major hhead
    rw [hhead] at h
    dsimp only [body] at h
    refine ⟨head, rfl, ?_⟩
    split_ifs at h with h0 h1 h23 hroom h2 h4
    · obtain ⟨rfl, rfl⟩ := Prod.ext_iff.mp (Except.ok.inj h)
      exact ⟨rfl, .inl ⟨h0, rfl⟩⟩
    · obtain ⟨rfl, rfl⟩ := Prod.ext_iff.mp (Except.ok.inj h)
      exact ⟨rfl, .inr ⟨h1, rfl⟩⟩
    · obtain ⟨rfl, rfl⟩ := Prod.ext_iff.mp (Except.ok.inj h)
      refine ⟨h2, ?_, rfl⟩
      rw [List.length_drop, List.length_take]
      omega
    · obtain ⟨rfl, rfl⟩ := Prod.ext_iff.mp (Except.ok.inj h)
      exact ⟨by omega, rfl⟩
    · cases hvalues : valuesFrom lossy buf head.next head.number [] with
      | error e =>
        rw [hvalues] at h
        cases h
      | ok r =>
        rw [hvalues] at h
        obtain ⟨rfl, rfl⟩ := Prod.ext_iff.mp (Except.ok.inj h)
        exact ⟨h4, by rw [valuesFrom_length hvalues, List.length_nil, Nat.zero_add]⟩
    · cases hentries : entriesFrom lossy buf head.next head.number [] with
      | error e =>
        rw [hentries] at h
        cases h
      | ok r =>
        rw [hentries] at h
        obtain ⟨rfl, rfl⟩ := Prod.ext_iff.mp (Except.ok.inj h)
        exact ⟨by omega, entriesFrom_pairs hentries⟩

end Cbor

end Sightr
