import Mathlib.Algebra.BigOperators.Group.List.Basic
import Sightr.Files.Served
import Sightr.Files.ZipNames
import Sightr.Lib.ByteFields

/-!
# The bytes of a folder's zip

`zipStream` of `bridge/workdir-zip.ts`: every file of a plan behind a local header, then a central header for each,
then the end record. A file is read when its turn comes; what it holds then is cut or filled up to the size it was
planned with.
-/

namespace Sightr.Files

open JsText ByteFields

/-! ### The encoders -/

def encode (text : List Char) : Bytes := text.flatMap String.utf8EncodeChar

def u16 (n : Nat) : Bytes := le 2 n
def u32 (n : Nat) : Bytes := le 4 n

structure LocalTime where
  year : Int
  month : Fin 12
  day : Nat
  hours : Fin 24
  minutes : Fin 60
  seconds : Fin 60
  day_le : day ≤ 31

structure Dos where
  time : Nat
  date : Nat
  deriving DecidableEq

def dosDate (d : LocalTime) : Dos :=
  let year := max 1980 (min 2107 d.year)
  { time := (d.hours.1 <<< 11) ||| (d.minutes.1 <<< 5) ||| (d.seconds.1 / 2)
    date := ((year - 1980).toNat <<< 9) ||| ((d.month.1 + 1) <<< 5) ||| d.day }

def localHeader (name : Bytes) (dos : Dos) (size crc : Nat) : Bytes :=
  [0x50, 0x4b, 3, 4] ++ u16 20 ++ u16 0x0800 ++ u16 0 ++ u16 dos.time ++ u16 dos.date ++ u32 crc ++ u32 size ++
    u32 size ++ u16 name.length ++ u16 0 ++ name

def centralHeader (name : Bytes) (dos : Dos) (size crc offset : Nat) : Bytes :=
  [0x50, 0x4b, 1, 2] ++ u16 20 ++ u16 20 ++ u16 0x0800 ++ u16 0 ++ u16 dos.time ++ u16 dos.date ++ u32 crc ++
    u32 size ++ u32 size ++ u16 name.length ++ u16 0 ++ u16 0 ++ u16 0 ++ u16 0 ++ u32 0 ++ u32 offset ++ name

def endRecord (count size offset : Nat) : Bytes :=
  [0x50, 0x4b, 5, 6] ++ u16 0 ++ u16 0 ++ u16 count ++ u16 count ++ u32 size ++ u32 offset ++ u16 0

/-- What the stream needs of the world: the clock's time of a file's, the checksum, and what a file holds when its
turn comes. -/
structure ZipSource where
  localTime : Int → LocalTime
  crc32 : Bytes → UInt32
  /-- The bytes of a file that has them with it, or of the file on the disk; `none` when it cannot be read. -/
  content : ZipFile → Option Bytes

namespace ZipSource

variable (src : ZipSource)

def dosOf (file : ZipFile) : Dos := dosDate (src.localTime file.mtimeMs)

/-- The bytes of a file, cut or filled up with zeros to its planned size. -/
def data (file : ZipFile) : Bytes :=
  let data := (src.content file).getD (List.replicate file.size 0)
  if data.length ≠ file.size then data.take file.size ++ List.replicate (file.size - data.length) 0 else data

/-- What the stream has put out, and the central headers it has kept for the end. -/
structure Streaming where
  out : Bytes := []
  centralParts : Bytes := []
  offset : Nat := 0

def streamFile (st : Streaming) (file : ZipFile) : Streaming :=
  let data := src.data file
  let name := encode file.name
  let crc := (src.crc32 data).toNat
  let head := localHeader name (src.dosOf file) file.size crc
  { out := st.out ++ head ++ data
    centralParts := st.centralParts ++ centralHeader name (src.dosOf file) file.size crc st.offset
    offset := st.offset + (head.length + data.length) }

def zipStream (plan : ZipPlan) : Bytes :=
  let st := plan.files.foldl src.streamFile {}
  st.out ++ st.centralParts ++ endRecord plan.files.length st.centralParts.length st.offset

end ZipSource

/-! ### The reader -/

structure Member where
  name : List Char
  dos : Dos
  size : Nat
  crc : Nat
  offset : Nat
  deriving DecidableEq

def decode (bytes : Bytes) : Option (List Char) := bytes.toByteArray.utf8Decode?.map Array.toList

/-- A central header of a stored file, without an extra field or a comment. -/
def readCentral (bytes : Bytes) : Option (Member × Bytes) := do
  let bytes ← expect ([0x50, 0x4b, 1, 2] ++ u16 20 ++ u16 20 ++ u16 0x0800 ++ u16 0) bytes
  let (time, bytes) ← readLe 2 bytes
  let (date, bytes) ← readLe 2 bytes
  let (crc, bytes) ← readLe 4 bytes
  let (stored, bytes) ← readLe 4 bytes
  let (size, bytes) ← readLe 4 bytes
  let (length, bytes) ← readLe 2 bytes
  let bytes ← expect (u16 0 ++ u16 0 ++ u16 0 ++ u16 0 ++ u32 0) bytes
  let (offset, bytes) ← readLe 4 bytes
  let (name, bytes) ← read length bytes
  let name ← decode name
  if stored = size then some ({ name, dos := { time, date }, size, crc, offset }, bytes) else none

def readCentrals : Nat → Bytes → Option (List Member)
  | 0, bytes => if bytes = [] then some [] else none
  | count + 1, bytes => do
    let (member, bytes) ← readCentral bytes
    let members ← readCentrals count bytes
    some (member :: members)

/-- The members of an archive, read from its end record, which has no comment. -/
def readArchive (archive : Bytes) : Option (List Member) := do
  let bytes ← expect ([0x50, 0x4b, 5, 6] ++ u16 0 ++ u16 0) (archive.drop (archive.length - 22))
  let (here, bytes) ← readLe 2 bytes
  let (count, bytes) ← readLe 2 bytes
  let (size, bytes) ← readLe 4 bytes
  let (offset, bytes) ← readLe 4 bytes
  let bytes ← expect (u16 0) bytes
  if here = count ∧ bytes = [] ∧ offset + size + 22 = archive.length then
    readCentrals count ((archive.drop offset).take size)
  else none

/-- The local header at a place, with the bytes of the file behind it. -/
def readMember (archive : Bytes) (offset : Nat) : Option (Member × Bytes) := do
  let bytes ← expect ([0x50, 0x4b, 3, 4] ++ u16 20 ++ u16 0x0800 ++ u16 0) (archive.drop offset)
  let (time, bytes) ← readLe 2 bytes
  let (date, bytes) ← readLe 2 bytes
  let (crc, bytes) ← readLe 4 bytes
  let (stored, bytes) ← readLe 4 bytes
  let (size, bytes) ← readLe 4 bytes
  let (length, bytes) ← readLe 2 bytes
  let bytes ← expect (u16 0) bytes
  let (name, bytes) ← read length bytes
  let name ← decode name
  let (data, _) ← read size bytes
  if stored = size then some ({ name, dos := { time, date }, size, crc, offset }, data) else none

/-! ### The headers are read -/

theorem length_encode (text : List Char) : (encode text).length = utf8Bytes text := by
  rw [encode, List.length_flatMap, utf8Bytes]
  congr 1
  exact List.map_congr_left fun c _ => String.length_utf8EncodeChar c

theorem decode_encode (text : List Char) : decode (encode text) = some text := by
  have h : (encode text).toByteArray = text.utf8Encode := rfl
  rw [decode, h, List.utf8Decode?_utf8Encode, Option.map_some]

theorem dosDate_lt (d : LocalTime) : (dosDate d).time < 2 ^ 16 ∧ (dosDate d).date < 2 ^ 16 := by
  have hhours := d.hours.2
  have hminutes := d.minutes.2
  have hseconds := d.seconds.2
  have hmonth := d.month.2
  have hday := d.day_le
  constructor
  · refine Nat.or_lt_two_pow (Nat.or_lt_two_pow ?_ ?_) ?_
    · rw [Nat.shiftLeft_eq]
      omega
    · rw [Nat.shiftLeft_eq]
      omega
    · omega
  · refine Nat.or_lt_two_pow (Nat.or_lt_two_pow ?_ ?_) ?_
    · rw [Nat.shiftLeft_eq]
      omega
    · rw [Nat.shiftLeft_eq]
      omega
    · omega

structure Fits (name : List Char) (dos : Dos) (size crc offset : Nat) : Prop where
  name_lt : utf8Bytes name < 2 ^ 16
  time_lt : dos.time < 2 ^ 16
  date_lt : dos.date < 2 ^ 16
  size_lt : size < 2 ^ 32
  crc_lt : crc < 2 ^ 32
  offset_lt : offset < 2 ^ 32

variable {name : List Char} {dos : Dos} {size crc offset : Nat}

theorem length_localHeader : (localHeader (encode name) dos size crc).length = 30 + utf8Bytes name := by
  simp [localHeader, u16, u32, length_encode]
  omega

theorem length_centralHeader : (centralHeader (encode name) dos size crc offset).length = 46 + utf8Bytes name := by
  simp [centralHeader, u16, u32, length_encode]
  omega

theorem length_endRecord (count : Nat) : (endRecord count size offset).length = 22 := by
  simp [endRecord, u16, u32]

theorem readLe_u16 {n : Nat} (h : n < 2 ^ 16) (rest : Bytes) : readLe 2 (u16 n ++ rest) = some (n, rest) :=
  readLe_append (show n < 256 ^ 2 from h) rest

theorem readLe_u32 {n : Nat} (h : n < 2 ^ 32) (rest : Bytes) : readLe 4 (u32 n ++ rest) = some (n, rest) :=
  readLe_append (show n < 256 ^ 4 from h) rest

theorem readCentral_centralHeader (h : Fits name dos size crc offset) (rest : Bytes) :
    readCentral (centralHeader (encode name) dos size crc offset ++ rest) =
      some ({ name, dos, size, crc, offset }, rest) := by
  have hlength : (encode name).length < 2 ^ 16 := length_encode name ▸ h.name_lt
  have hmark (tail : Bytes) := expect_append ([0x50, 0x4b, 1, 2] ++ u16 20 ++ u16 20 ++ u16 0x0800 ++ u16 0) tail
  have hblank (tail : Bytes) := expect_append (u16 0 ++ u16 0 ++ u16 0 ++ u16 0 ++ u32 0) tail
  have hheader : centralHeader (encode name) dos size crc offset ++ rest =
      ([0x50, 0x4b, 1, 2] ++ u16 20 ++ u16 20 ++ u16 0x0800 ++ u16 0) ++ (u16 dos.time ++ (u16 dos.date ++
        (u32 crc ++ (u32 size ++ (u32 size ++ (u16 (encode name).length ++
          ((u16 0 ++ u16 0 ++ u16 0 ++ u16 0 ++ u32 0) ++ (u32 offset ++ (encode name ++ rest))))))))) := by
    simp only [centralHeader, List.append_assoc]
  rw [hheader, readCentral, hmark]
  simp only [Option.bind_eq_bind, Option.bind_some, readLe_u16 h.time_lt, readLe_u16 h.date_lt, readLe_u32 h.crc_lt,
    readLe_u32 h.size_lt, readLe_u16 hlength, hblank, readLe_u32 h.offset_lt, read_append, decode_encode, if_true]

/-- A local header that was written is read, with the bytes of the file behind it. -/
theorem readMember_localHeader (h : Fits name dos size crc offset) {data : Bytes} (hdata : data.length = size)
    {archive rest : Bytes} (hdrop : archive.drop offset = localHeader (encode name) dos size crc ++ data ++ rest) :
    readMember archive offset = some ({ name, dos, size, crc, offset }, data) := by
  have hlength : (encode name).length < 2 ^ 16 := length_encode name ▸ h.name_lt
  have hmark (tail : Bytes) := expect_append ([0x50, 0x4b, 3, 4] ++ u16 20 ++ u16 0x0800 ++ u16 0) tail
  have hblank (tail : Bytes) := expect_append (u16 0) tail
  have hread (tail : Bytes) : read size (data ++ tail) = some (data, tail) := hdata ▸ read_append data tail
  have hheader : localHeader (encode name) dos size crc ++ data ++ rest =
      ([0x50, 0x4b, 3, 4] ++ u16 20 ++ u16 0x0800 ++ u16 0) ++ (u16 dos.time ++ (u16 dos.date ++ (u32 crc ++
        (u32 size ++ (u32 size ++ (u16 (encode name).length ++ (u16 0 ++ (encode name ++ (data ++ rest))))))))) := by
    simp only [localHeader, List.append_assoc]
  rw [readMember, hdrop, hheader, hmark]
  simp only [Option.bind_eq_bind, Option.bind_some, readLe_u16 h.time_lt, readLe_u16 h.date_lt, readLe_u32 h.crc_lt,
    readLe_u32 h.size_lt, readLe_u16 hlength, hblank, read_append, decode_encode, hread, if_true]

/-! ### The stream -/

namespace ZipSource

variable (src : ZipSource) (file : ZipFile)

def crcOf : Nat := (src.crc32 (src.data file)).toNat

def part : Bytes := localHeader (encode file.name) (src.dosOf file) file.size (src.crcOf file) ++ src.data file

/-- The central header of a file whose local header is at a place. -/
def centralPart (offset : Nat) : Bytes :=
  centralHeader (encode file.name) (src.dosOf file) file.size (src.crcOf file) offset

def member (offset : Nat) : Member :=
  { name := file.name, dos := src.dosOf file, size := file.size, crc := src.crcOf file, offset }

/-- Something for each file, with the place where its local header is. -/
def placed {α : Type*} (f : ZipFile → Nat → α) : Nat → List ZipFile → List α
  | _, [] => []
  | offset, file :: files => f file offset :: placed f (offset + (src.part file).length) files

theorem length_data : (src.data file).length = file.size := by
  rw [data]
  split_ifs with h
  · rw [List.length_append, List.length_take, List.length_replicate]
    omega
  · exact not_not.mp h

theorem length_part : (src.part file).length = 30 + utf8Bytes file.name + file.size := by
  rw [part, List.length_append, length_localHeader, length_data]

theorem foldl_streamFile (files : List ZipFile) (st : Streaming) : files.foldl src.streamFile st =
    { out := st.out ++ files.flatMap src.part
      centralParts := st.centralParts ++ (src.placed src.centralPart st.offset files).flatten
      offset := st.offset + (files.flatMap src.part).length } := by
  induction files generalizing st with
  | nil => simp [placed]
  | cons file files ih =>
    have hlength : (src.part file).length =
        (localHeader (encode file.name) (src.dosOf file) file.size (src.crcOf file)).length +
          (src.data file).length := by rw [part, List.length_append]
    rw [List.foldl_cons, ih, streamFile]
    simp only [List.flatMap_cons, placed, List.flatten_cons, List.length_append, hlength]
    simp only [part, centralPart, crcOf, List.append_assoc, Nat.add_assoc]

theorem zipStream_eq (plan : ZipPlan) : src.zipStream plan = plan.files.flatMap src.part ++
    (src.placed src.centralPart 0 plan.files).flatten ++
      endRecord plan.files.length (src.placed src.centralPart 0 plan.files).flatten.length
        (plan.files.flatMap src.part).length := by
  rw [zipStream, foldl_streamFile]
  simp only [List.nil_append, Nat.zero_add]

theorem length_flatMap_part (files : List ZipFile) :
    (files.flatMap src.part).length = (files.map fun f => 30 + utf8Bytes f.name + f.size).sum := by
  rw [List.length_flatMap]
  congr 1
  exact List.map_congr_left fun file _ => src.length_part file

theorem length_centralParts (files : List ZipFile) (offset : Nat) :
    (src.placed src.centralPart offset files).flatten.length = (files.map fun f => 46 + utf8Bytes f.name).sum := by
  induction files generalizing offset with
  | nil => rfl
  | cons file files ih =>
    rw [placed, List.flatten_cons, List.length_append, ih, centralPart, length_centralHeader, List.map_cons,
      List.sum_cons]

theorem length_zipStream (plan : ZipPlan) : (src.zipStream plan).length = WorkDir.archiveSize plan.files := by
  have hsum : (plan.files.map fun f => 30 + utf8Bytes f.name + f.size).sum +
      (plan.files.map fun f => 46 + utf8Bytes f.name).sum =
        (plan.files.map fun f => 30 + utf8Bytes f.name + f.size + 46 + utf8Bytes f.name).sum := by
    rw [← List.sum_map_add]
    congr 1
    exact List.map_congr_left fun file _ => by omega
  rw [zipStream_eq, List.length_append, List.length_append, length_endRecord, length_flatMap_part,
    length_centralParts, WorkDir.archiveSize, hsum]

/-- The headers of the files can hold what they say, the first local header at the place. -/
structure Holdable (files : List ZipFile) (offset : Nat) : Prop where
  name_lt : ∀ f ∈ files, utf8Bytes f.name < 2 ^ 16
  end_lt : offset + (files.flatMap src.part).length < 2 ^ 32

variable {src} {files : List ZipFile} {file : ZipFile} {offset : Nat}

theorem Holdable.tail (h : src.Holdable (file :: files) offset) :
    src.Holdable files (offset + (src.part file).length) := by
  refine ⟨fun f hf => h.name_lt f (List.mem_cons_of_mem _ hf), ?_⟩
  have hend := h.end_lt
  rwa [List.flatMap_cons, List.length_append, ← Nat.add_assoc] at hend

theorem Holdable.fits (h : src.Holdable (file :: files) offset) :
    Fits file.name (src.dosOf file) file.size (src.crcOf file) offset := by
  have hend := h.end_lt
  rw [List.flatMap_cons, List.length_append, length_part] at hend
  exact ⟨h.name_lt file (List.mem_cons_self ..), (dosDate_lt _).1, (dosDate_lt _).2, by omega,
    UInt32.toNat_lt _, by omega⟩

theorem readCentrals_centralParts (h : src.Holdable files offset) :
    readCentrals files.length (src.placed src.centralPart offset files).flatten =
      some (src.placed src.member offset files) := by
  induction files generalizing offset with
  | nil => rfl
  | cons file files ih =>
    have hread := readCentral_centralHeader h.fits (src.placed src.centralPart (offset + (src.part file).length)
      files).flatten
    rw [List.length_cons, placed, List.flatten_cons, readCentrals, centralPart, hread]
    simp only [Option.bind_eq_bind, Option.bind_some, ih h.tail, placed, member]

theorem names_members : (src.placed src.member offset files).map (·.name) = files.map (·.name) := by
  induction files generalizing offset with
  | nil => rfl
  | cons file files ih => rw [placed, List.map_cons, List.map_cons, ih, member]

/-- A member of an archive is a file of the plan: the same name, size and time, and behind the local header at its
place stand the file's bytes, whose checksum it says. -/
structure Holds (src : ZipSource) (archive : Bytes) (f : ZipFile) (m : Member) : Prop where
  name_eq : m.name = f.name
  size_eq : m.size = f.size
  dos_eq : m.dos = src.dosOf f
  read_eq : ∃ data, readMember archive m.offset = some (m, data) ∧ data.length = m.size ∧
    m.crc = (src.crc32 data).toNat ∧ data = src.data f

theorem forall₂_holds {front rest archive : Bytes} (h : src.Holdable files front.length)
    (harchive : archive = front ++ files.flatMap src.part ++ rest) :
    List.Forall₂ (src.Holds archive) files (src.placed src.member front.length files) := by
  induction files generalizing front with
  | nil => exact .nil
  | cons file files ih =>
    have hnext : archive = (front ++ src.part file) ++ files.flatMap src.part ++ rest := by
      rw [harchive, List.flatMap_cons, ← List.append_assoc]
    have hlength : front.length + (src.part file).length = (front ++ src.part file).length :=
      List.length_append.symm
    have htail := h.tail
    rw [hlength] at htail
    rw [placed, hlength]
    refine .cons ⟨rfl, rfl, rfl, src.data file, ?_, src.length_data file, rfl, rfl⟩ (ih htail hnext)
    have hdrop : archive.drop front.length =
        localHeader (encode file.name) (src.dosOf file) file.size (src.crcOf file) ++ src.data file ++
          (files.flatMap src.part ++ rest) := by
      rw [hnext, List.append_assoc, List.append_assoc, List.drop_left]
      rfl
    exact readMember_localHeader h.fits (src.length_data file) hdrop

theorem readArchive_zipStream {plan : ZipPlan} (h : src.Holdable plan.files 0) (hcount : plan.files.length < 2 ^ 16)
    (hsize : (src.zipStream plan).length < 2 ^ 32) :
    readArchive (src.zipStream plan) = some (src.placed src.member 0 plan.files) := by
  rw [zipStream_eq] at hsize ⊢
  generalize hparts : plan.files.flatMap src.part = parts at hsize ⊢
  generalize hcentral : (src.placed src.centralPart 0 plan.files).flatten = centralParts at hsize ⊢
  rw [List.length_append, List.length_append, length_endRecord] at hsize
  have hmark (tail : Bytes) := expect_append ([0x50, 0x4b, 5, 6] ++ u16 0 ++ u16 0) tail
  have hblank := expect_append (u16 0) []
  have hend : endRecord plan.files.length centralParts.length parts.length =
      ([0x50, 0x4b, 5, 6] ++ u16 0 ++ u16 0) ++ (u16 plan.files.length ++ (u16 plan.files.length ++
        (u32 centralParts.length ++ (u32 parts.length ++ (u16 0 ++ []))))) := by
    simp only [endRecord, List.append_assoc, List.append_nil]
  have hdrop : (parts ++ centralParts ++ endRecord plan.files.length centralParts.length parts.length).drop
      ((parts ++ centralParts ++ endRecord plan.files.length centralParts.length parts.length).length - 22) =
        endRecord plan.files.length centralParts.length parts.length := by
    rw [List.length_append, length_endRecord, Nat.add_sub_cancel, List.drop_left]
  have htake : ((parts ++ centralParts ++ endRecord plan.files.length centralParts.length parts.length).drop
      parts.length).take centralParts.length = centralParts := by
    rw [List.append_assoc, List.drop_left, List.take_left]
  have hlength : parts.length + centralParts.length + 22 =
      (parts ++ centralParts ++ endRecord plan.files.length centralParts.length parts.length).length := by
    rw [List.length_append, List.length_append, length_endRecord]
  rw [readArchive, hdrop, hend, hmark]
  have hcentralSize : centralParts.length < 2 ^ 32 := by omega
  have hpartsSize : parts.length < 2 ^ 32 := by omega
  simp only [Option.bind_eq_bind, Option.bind_some, readLe_u16 hcount, readLe_u32 hcentralSize, readLe_u32 hpartsSize,
    hblank]
  rw [← hend, if_pos ⟨trivial, trivial, hlength⟩, htake, ← hcentral, readCentrals_centralParts h]

end ZipSource

/-- A folder's download is a valid archive of the announced size, whatever the files hold when they are streamed:
read from its end record it has exactly the files of the plan, in order and with distinct names, and at each of their
places a local header says the same in front of the file's bytes. -/
theorem download_valid {w : WorkDir} {caps : ZipCaps} {folder : FilePath} {maxDepth : Nat} {label : PathText}
    {now : Int} {plan : ZipPlan} (hplan : w.planZip caps folder maxDepth label now = .ok plan)
    (hnames : ∀ f ∈ plan.files, utf8Bytes f.name < 65536) (hcount : plan.files.length ≤ 65535)
    (hsize : plan.size < 2 ^ 32) (src : ZipSource) :
    (src.zipStream plan).length = plan.size ∧ ∃ members, readArchive (src.zipStream plan) = some members ∧
      List.Forall₂ (src.Holds (src.zipStream plan)) plan.files members ∧ (members.map (·.name)).Nodup := by
  have hplanned : plan.size = WorkDir.archiveSize plan.files := by
    obtain ⟨packed, -, hpure⟩ := Except.bind_eq_ok.mp hplan
    obtain rfl := Except.ok.inj hpure
    rfl
  have hlength : (src.zipStream plan).length = plan.size := hplanned ▸ src.length_zipStream plan
  have hstream := src.zipStream_eq plan
  have hbytes : (src.zipStream plan).length < 2 ^ 32 := hlength ▸ hsize
  have hholdable : src.Holdable plan.files 0 := by
    refine ⟨hnames, ?_⟩
    rw [hstream, List.length_append, List.length_append] at hbytes
    omega
  have hholds : List.Forall₂ (src.Holds (src.zipStream plan)) plan.files (src.placed src.member 0 plan.files) := by
    have hparts := hstream
    rw [List.append_assoc, ← List.nil_append (plan.files.flatMap src.part)] at hparts
    exact ZipSource.forall₂_holds hholdable hparts
  refine ⟨hlength, _, ZipSource.readArchive_zipStream hholdable (Nat.lt_succ_of_le hcount) hbytes, hholds, ?_⟩
  rw [ZipSource.names_members]
  exact WorkDir.nodup_names_planZip hplan

/-! ### One archive -/

def crc32 (bytes : Bytes) : UInt32 :=
  let shift (crc : UInt32) : UInt32 := if crc &&& 1 = 1 then (crc >>> 1) ^^^ 0xEDB88320 else crc >>> 1
  (bytes.foldl (fun crc b => Nat.repeat shift 8 (crc ^^^ b.toUInt32)) 0xFFFFFFFF) ^^^ 0xFFFFFFFF

example : crc32 [0x61, 0x62, 0x63] = 0x352441C2 := by decide +kernel

/-- A clock in UTC on its first day; the one file holds `abc`. -/
def abcSource : ZipSource where
  localTime _ := { year := 1970, month := 0, day := 1, hours := 0, minutes := 0, seconds := 0, day_le := by decide }
  crc32 := crc32
  content _ := some [0x61, 0x62, 0x63]

theorem planZip_plainDir : ∃ plan, WorkDir.plainDir.planZip WorkDir.filesCaps ["srv".toList, "docs".toList]
    SEARCH_MAX_DEPTH "docs".toList 0 = .ok plan ∧
      plan.files = [⟨some ["srv".toList, "docs".toList, "a.txt".toList], "docs/a.txt".toList, 3, 0⟩] ∧
      plan.size = 121 := by
  have hpacks : WorkDir.plainDir.packChildren WorkDir.filesCaps ["srv".toList, "docs".toList] SEARCH_MAX_DEPTH
      "docs".toList = .ok ([⟨some ["srv".toList, "docs".toList, "a.txt".toList], "docs/a.txt".toList, 3, 0⟩],
        []) := by
    decide +kernel
  rw [WorkDir.planZip, hpacks]
  exact ⟨_, rfl, by simp, by simp; decide +kernel⟩

theorem download_valid_plain : ∃ plan, WorkDir.plainDir.planZip WorkDir.filesCaps ["srv".toList, "docs".toList]
    SEARCH_MAX_DEPTH "docs".toList 0 = .ok plan ∧ (abcSource.zipStream plan).length = 121 ∧
      ∃ members, readArchive (abcSource.zipStream plan) = some members ∧
        List.Forall₂ (abcSource.Holds (abcSource.zipStream plan)) plan.files members ∧
          (members.map (·.name)).Nodup := by
  obtain ⟨plan, hplan, hfiles, hsize⟩ := planZip_plainDir
  have hnames : ∀ f ∈ plan.files, utf8Bytes f.name < 65536 := by
    rw [hfiles]
    decide
  obtain ⟨hlength, hmembers⟩ := download_valid hplan hnames (by rw [hfiles]; decide) (by rw [hsize]; decide) abcSource
  exact ⟨plan, hplan, hlength.trans hsize, hmembers⟩

end Sightr.Files
