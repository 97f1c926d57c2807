import WslFreeBSD.Lib.Bytes

/-!
# Messages of the plan9 protocol

The requests that the server knows, the sizes of their replies, and the values that are written into
them. `Field` are the parts of a body: `holds` says whether a request has what is read of it, and
`Spells` whether a reply consists of its parts.
-/

namespace WslFreeBSD.Plan9

open Lib

/-- The requests of `MessageType`. -/
inductive MessageType where
  | statfs | lopen | lcreate | symlink | mknod | rename | readlink | getattr | setattr | xattrwalk
  | xattrcreate | readdir | fsync | lock | getlock | link | mkdir | renameat | unlinkat | version | auth
  | attach | flush | walk | read | write | clunk | remove | access | wreaddir | wopen
  deriving DecidableEq, Repr

/-- The number of a request. That of its reply is one more. -/
def MessageType.code : MessageType → Nat
  | .statfs => 8
  | .lopen => 12
  | .lcreate => 14
  | .symlink => 16
  | .mknod => 18
  | .rename => 20
  | .readlink => 22
  | .getattr => 24
  | .setattr => 26
  | .xattrwalk => 30
  | .xattrcreate => 32
  | .readdir => 40
  | .fsync => 50
  | .lock => 52
  | .getlock => 54
  | .link => 70
  | .mkdir => 72
  | .renameat => 74
  | .unlinkat => 76
  | .version => 100
  | .auth => 102
  | .attach => 104
  | .flush => 108
  | .walk => 110
  | .read => 116
  | .write => 118
  | .clunk => 120
  | .remove => 122
  | .access => 128
  | .wreaddir => 130
  | .wopen => 132

def messageTypes : List MessageType :=
  [.statfs, .lopen, .lcreate, .symlink, .mknod, .rename, .readlink, .getattr, .setattr, .xattrwalk,
    .xattrcreate, .readdir, .fsync, .lock, .getlock, .link, .mkdir, .renameat, .unlinkat, .version, .auth,
    .attach, .flush, .walk, .read, .write, .clunk, .remove, .access, .wreaddir, .wopen]

def messageType (code : Nat) : Option MessageType := messageTypes.find? (·.code = code)

/-- `MessageType::Tlerror`; the reply to a request that failed has one more. -/
def tlerror : Nat := 6

/-- `MaximumRequestBufferSize`. -/
def maximumRequestBufferSize : Nat := 256 * 1024

def headerSize : Nat := 7
def qidSize : Nat := 13
def statResultSize : Nat := 100
def pathMax : Nat := 4096

/-- `GetMessageSize` of the reply to a request, without what has a variable length. -/
def getMessageSize : MessageType → Nat
  | .version => headerSize + 4 + 2
  | .walk => headerSize + 2
  | .read => headerSize + 4
  | .write => headerSize + 4
  | .auth => headerSize + 13
  | .attach => headerSize + 13
  | .statfs => headerSize + 4 + 4 + 8 + 8 + 8 + 8 + 8 + 8 + 4
  | .lopen => headerSize + 13 + 4
  | .lcreate => headerSize + 13 + 4
  | .symlink => headerSize + 13
  | .mknod => headerSize + 13
  | .readlink => headerSize + 2
  | .getattr =>
    headerSize + 8 + 13 + 4 + 4 + 4 + 8 + 8 + 8 + 8 + 8 + 8 + 8 + 8 + 8 + 8 + 8 + 8 + 8 + 8 + 8
  | .xattrwalk => headerSize + 8
  | .readdir => headerSize + 4
  | .lock => headerSize + 1
  | .getlock => headerSize + 1 + 8 + 8 + 4 + 2
  | .mkdir => headerSize + 13
  | .wreaddir => headerSize + 4
  | .wopen =>
    headerSize + 1 + 2 + 13 + 2 + 4 + 4 + 4 + 4 + 8 + 8 + 8 + 8 + 8 + 8 + 8 + 8 + 8 + 8 + 8 + 8 + 8 +
      8 + 8
  | .flush | .clunk | .remove | .rename | .setattr | .xattrcreate | .fsync | .link | .renameat
  | .unlinkat | .access => headerSize

/-! ## Values -/

structure Qid where
  path : Nat
  version : Nat
  type : Nat
  deriving DecidableEq, Repr

/-- `QidType::Directory`. -/
def Qid.isDirectory (q : Qid) : Bool := q.type.testBit 7

/-- `QidType::Symlink`. -/
def Qid.isSymlink (q : Qid) : Bool := q.type.testBit 1

structure StatResult where
  mode : Nat
  uid : Nat
  gid : Nat
  nlink : Nat
  rdev : Nat
  size : Nat
  blockSize : Nat
  blocks : Nat
  atimeSec : Nat
  atimeNsec : Nat
  mtimeSec : Nat
  mtimeNsec : Nat
  ctimeSec : Nat
  ctimeNsec : Nat
  deriving DecidableEq, Repr

def StatResult.zero : StatResult := ⟨0, 0, 0, 0, 0, 0, 0, 0, 0, 0, 0, 0, 0, 0⟩

/-- `SpanWriter::Qid`. -/
def qidBytes (q : Qid) : Bytes := leBytes 1 q.type ++ leBytes 4 q.version ++ leBytes 8 q.path

/-- `SpanWriteStatResult`. -/
def statResultBytes (s : StatResult) : Bytes :=
  leBytes 4 s.mode ++ leBytes 4 s.uid ++ leBytes 4 s.gid ++ leBytes 8 s.nlink ++ leBytes 8 s.rdev ++
    leBytes 8 s.size ++ leBytes 8 s.blockSize ++ leBytes 8 s.blocks ++ leBytes 8 s.atimeSec ++
    leBytes 8 s.atimeNsec ++ leBytes 8 s.mtimeSec ++ leBytes 8 s.mtimeNsec ++ leBytes 8 s.ctimeSec ++
    leBytes 8 s.ctimeNsec

@[simp] theorem length_qidBytes (q : Qid) : (qidBytes q).length = qidSize := by
  simp [qidBytes, qidSize]

@[simp] theorem length_statResultBytes (s : StatResult) :
    (statResultBytes s).length = statResultSize := by
  simp [statResultBytes, statResultSize]

/-! ## Strings -/

/-- `FixString`: a string ends at its first NUL. -/
def fixString (s : Bytes) : Bytes := s.takeWhile (· ≠ 0)

/-- What `Name` accepts. -/
def isName (s : Bytes) : Bool := s ≠ [] && s ≠ [46] && s ≠ [46, 46] && 47 ∉ s

/-! ## Bodies -/

/-- A part of the body of a message. -/
inductive Field where
  | int (size : Nat)
  | string
  /-- a string that has to be a name -/
  | name
  /-- a number of names -/
  | names
  /-- a number of bytes -/
  | data
  /-- a number of `Qid`s -/
  | qids

/-- The length of the string at the start of a body. -/
def stringLength (b : Bytes) : Nat := leAt 0 2 b

def holdsString (b : Bytes) : Bool := 2 ≤ b.length && 2 + stringLength b ≤ b.length

theorem holdsString_iff {b : Bytes} :
    holdsString b ↔ 2 ≤ b.length ∧ 2 + stringLength b ≤ b.length := by
  simp [holdsString]

def stringAt (b : Bytes) : Bytes := fixString ((b.drop 2).take (stringLength b))

theorem length_stringAt_le (b : Bytes) : (stringAt b).length ≤ stringLength b :=
  (List.takeWhile_sublist _).length_le.trans (List.length_take_le _ _)

theorem length_stringAt_lt (b : Bytes) : (stringAt b).length < 2 ^ 16 :=
  (length_stringAt_le b).trans_lt (leAt_lt 0 2 b)

/-- A number of names is there, up to one that is refused. -/
def holdsNames : Nat → Bytes → Bool
  | 0, _ => true
  | n + 1, b =>
    holdsString b && (!isName (stringAt b) || holdsNames n (b.drop (2 + stringLength b)))

/-- A body has all that is read of it: nothing is read behind a name that is refused. -/
def holds : List Field → Bytes → Bool
  | [], _ => true
  | .int n :: fields, b => n ≤ b.length && holds fields (b.drop n)
  | .string :: fields, b => holdsString b && holds fields (b.drop (2 + stringLength b))
  | .name :: fields, b =>
    holdsString b && (!isName (stringAt b) || holds fields (b.drop (2 + stringLength b)))
  | .names :: _, b => 2 ≤ b.length && holdsNames (leAt 0 2 b) (b.drop 2)
  | .data :: fields, b => 4 ≤ b.length && 4 + leAt 0 4 b ≤ b.length &&
      holds fields (b.drop (4 + leAt 0 4 b))
  | .qids :: _, _ => false

theorem holdsNames_eq (n : Nat) (b : Bytes) : holdsNames n b = holds (List.replicate n .name) b := by
  induction n generalizing b with
  | zero => rfl
  | succ n ih => rw [holdsNames, ih, List.replicate_succ, holds]

/-- The bytes are the field, as it stands in a reply. -/
def Field.IsSpelled : Field → Bytes → Prop
  | .int n, b => b.length = n
  | .string, b | .name, b => ∃ s : Bytes, s.length < 2 ^ 16 ∧ b = leBytes 2 s.length ++ s
  | .data, b => ∃ s : Bytes, s.length < 2 ^ 32 ∧ b = leBytes 4 s.length ++ s
  | .qids, b => ∃ (n : Nat) (s : Bytes), n < 2 ^ 16 ∧ s.length = n * qidSize ∧ b = leBytes 2 n ++ s
  | .names, _ => False

/-- The bytes are the fields one after the other. -/
def Spells : List Field → Bytes → Prop
  | [], b => b = []
  | f :: fields, b => ∃ s t, b = s ++ t ∧ f.IsSpelled s ∧ Spells fields t

theorem spells_append {fields fields' : List Field} {b b' : Bytes} (h : Spells fields b)
    (h' : Spells fields' b') : Spells (fields ++ fields') (b ++ b') := by
  induction fields generalizing b with
  | nil =>
    obtain rfl : b = [] := h
    exact h'
  | cons f fields ih =>
    obtain ⟨s, t, rfl, hf, ht⟩ := h
    exact ⟨s, t ++ b', List.append_assoc s t b', hf, ih ht⟩

theorem spells_singleton {f : Field} {b : Bytes} (h : f.IsSpelled b) : Spells [f] b :=
  ⟨b, [], (List.append_nil b).symm, h, rfl⟩

/-- What a handler reads of the body of a request. The names of a `wopen` are read one by one while
they are looked up; they are not among these fields. -/
def requestFields : MessageType → List Field
  | .version => [.int 4, .string]
  | .attach => [.int 4, .int 4, .string, .string, .int 4]
  | .statfs => [.int 4]
  | .getattr => [.int 4, .int 8]
  | .walk => [.int 4, .int 4, .names]
  | .clunk => [.int 4]
  | .lopen => [.int 4, .int 4]
  | .lcreate => [.int 4, .name, .int 4, .int 4, .int 4]
  | .symlink => [.int 4, .name, .string, .int 4]
  | .mknod => [.int 4, .name, .int 4, .int 4, .int 4, .int 4]
  | .readlink => [.int 4]
  | .readdir | .wreaddir => [.int 4, .int 8, .int 4]
  | .fsync => [.int 4]
  | .link => [.int 4, .int 4, .name]
  | .read => [.int 4, .int 8, .int 4]
  | .write => [.int 4, .int 8, .data]
  | .unlinkat => [.int 4, .name, .int 4]
  | .remove => [.int 4]
  | .renameat => [.int 4, .name, .int 4, .name]
  | .rename => [.int 4, .int 4, .name]
  | .mkdir => [.int 4, .name, .int 4, .int 4]
  | .setattr => [.int 4, .int 4, .int 4, .int 4, .int 4, .int 8, .int 8, .int 8, .int 8, .int 8]
  | .lock => [.int 4, .int 1, .int 4, .int 8, .int 8, .int 4, .string]
  | .getlock => [.int 4, .int 1, .int 8, .int 8, .int 4, .string]
  | .xattrwalk => [.int 4, .int 4, .string]
  | .xattrcreate => [.int 4, .string, .int 8, .int 4]
  | .access => [.int 4, .int 4]
  | .wopen => [.int 4, .int 4, .int 4, .int 4, .int 4, .int 4, .int 8, .int 2]
  | .flush => [.int 2]
  | .auth => []

def replyFields : MessageType → List Field
  | .version => [.int 4, .string]
  | .auth | .attach | .symlink | .mknod | .mkdir => [.int qidSize]
  | .statfs => [.int 4, .int 4, .int 8, .int 8, .int 8, .int 8, .int 8, .int 8, .int 4]
  | .getattr => [.int 8, .int qidSize, .int statResultSize, .int 8, .int 8, .int 8, .int 8]
  | .walk => [.qids]
  | .lopen | .lcreate => [.int qidSize, .int 4]
  | .readlink => [.string]
  | .readdir | .wreaddir | .read => [.data]
  | .write => [.int 4]
  | .lock => [.int 1]
  | .getlock => [.int 1, .int 8, .int 8, .int 4, .string]
  | .xattrwalk => [.int 8]
  | .wopen =>
    [.int 1, .int 2, .int qidSize, .string, .int 4, .int statResultSize, .int 8, .int 8, .int 8, .int 8]
  | .flush | .clunk | .remove | .rename | .setattr | .xattrcreate | .fsync | .link | .renameat
  | .unlinkat | .access => []

end WslFreeBSD.Plan9
