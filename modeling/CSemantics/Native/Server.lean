/-
  The native code server.

  A client writes commands into a pipe, and the server carries them out on the memory of its process and answers.
  What is sent waits in a buffer until it is flushed, once for each command.

      _INVOKE             blocks of memory, a call, and the blocks again as the call left them
      _GET_SYMBOL_TABLE   the names and addresses of the symbols
      _ALLOC              the address of new memory
      _SYNC_READ          a range of bytes
      _EXIT               a zero byte

  A block that is marked dirty comes through a buffer of 8192 bytes, and only the bytes that differ are written.

  `Request` and `Request.answer` say what the commands are for.  `Listens` and `Speaks` are the two halves of a
  command, and `Polite` is what they make together: who waits for the client has said nothing yet.

      writeDirty_eq    the bytes that differ are enough
      any_client       whatever is sent, what is said is flushed and stays
      session          requests are answered, command by command, and at any byte between
-/
import Mathlib

namespace CSemantics.Native

/-! ## The platform -/

abbrev Memory := Int → UInt8

/-- What `platform.h`, `symbols.c` and the native code provide. -/
structure Platform where
  bigEndian : Bool
  /-- the trampoline, called with a function and the place for its result -/
  call : (trampoline fptr retval : Int) → Memory → Memory
  alloc : (size : Nat) → Memory → Int × Memory
  symbols : List (List UInt8 × Int)

/-- Why the server goes no further. -/
inductive Stop
  /-- `__recv_message` has not all the bytes yet -/
  | waits
  | error (msg : String)
  deriving DecidableEq, Repr

structure Server where
  memory : Memory
  input : List UInt8
  /-- sent, and not flushed yet -/
  pending : List UInt8
  sent : List UInt8

abbrev ServerM := EStateM Stop Server

def recvMessage (len : Nat) : ServerM (List UInt8) := fun s =>
  if len ≤ s.input.length then .ok (s.input.take len) { s with input := s.input.drop len } else .error .waits s

def sendMessage (buf : List UInt8) : ServerM Unit := fun s => .ok () { s with pending := s.pending ++ buf }

def flushMessage : ServerM Unit := fun s => .ok () { s with pending := [], sent := s.sent ++ s.pending }

def error {α : Type} (msg : String) : ServerM α := fun s => .error (.error msg) s

def modifyMemory (f : Memory → Memory) : ServerM Unit := fun s => .ok () { s with memory := f s.memory }

/-! ## Bytes -/

/-- The bytes from an address on. -/
def read (m : Memory) (address : Int) (len : Nat) : List UInt8 := (List.range len).map fun i => m (address + i)

def write (m : Memory) (address : Int) : List UInt8 → Memory
  | [] => m
  | b :: buf => write (Function.update m address b) (address + 1) buf

/-- `__send_message` of a range of the memory -/
def sendMemory (address : Int) (len : Nat) : ServerM Unit := fun s =>
  .ok () { s with pending := s.pending ++ read s.memory address len }

def bytesOf : (width : Nat) → Nat → List UInt8
  | 0, _ => []
  | width + 1, n => UInt8.ofNat n :: bytesOf width (n / 256)

def valueOf : List UInt8 → Nat
  | [] => 0
  | b :: buf => b.toNat + 256 * valueOf buf

section Integers

variable (P : Platform)

/-- An integer as it is in memory. -/
def encode (width : Nat) (v : Int) : List UInt8 :=
  let bytes := bytesOf width (v % 256 ^ width).toNat
  if P.bigEndian then bytes.reverse else bytes

def decode (bytes : List UInt8) : Nat := valueOf (if P.bigEndian then bytes.reverse else bytes)

/-- `__recv_message` into an unsigned integer. -/
def recvUnsigned (width : Nat) : ServerM Nat := do
  let bytes ← recvMessage width
  return decode P bytes

/-- and into a signed one -/
def recvSigned (width : Nat) : ServerM Int := do
  let bytes ← recvMessage width
  return (decode P bytes : Int).bmod (256 ^ width)

def sendInt (width : Nat) (v : Int) : ServerM Unit := sendMessage (encode P width v)

/-! ## The commands -/

/-- `NATIVE_MEMORY_SIZE` -/
def nativeMemorySize : Nat := 8192

/-- `sizeof(dirty_buffer)` -/
def dirtyBufferSize : Nat := 8192

def writeDirty (m : Memory) (ptr : Int) : (dirtyBuffer : List UInt8) → Memory
  | [] => m
  | b :: dirtyBuffer => writeDirty (if m ptr ≠ b then Function.update m ptr b else m) (ptr + 1) dirtyBuffer

/-- The loop over the pieces of a dirty block. -/
def recvDirty (ptr : Int) (remaining : Nat) : ServerM Unit :=
  if _h : remaining > dirtyBufferSize then do
    let dirtyBuffer ← recvMessage dirtyBufferSize
    modifyMemory (writeDirty · ptr dirtyBuffer)
    recvDirty (ptr + dirtyBufferSize) (remaining - dirtyBufferSize)
  else do
    let dirtyBuffer ← recvMessage remaining
    modifyMemory (writeDirty · ptr dirtyBuffer)
termination_by remaining
decreasing_by
  have : 0 < dirtyBufferSize := by decide
  omega

/-- `__native_mem_t` -/
structure NativeMem where
  address : Int
  size : Nat

def recvClean (address : Int) (len : Nat) : ServerM Unit := do
  let buf ← recvMessage len
  modifyMemory (write · address buf)

def recvBlock : ServerM NativeMem := do
  let address ← recvSigned P 8
  let isDirty ← recvUnsigned P 1
  let len ← recvUnsigned P 4
  bif isDirty != 0 then recvDirty address len else recvClean address len
  return ⟨address, len⟩

def recvBlocks : (sizeNativeMemory : Nat) → ServerM (List NativeMem)
  | 0 => return []
  | n + 1 => do
    let block ← recvBlock P
    let blocks ← recvBlocks n
    return block :: blocks

def sendBlocks : List NativeMem → ServerM Unit
  | [] => return ()
  | block :: blocks => do
    sendInt P 4 block.size
    sendMemory block.address block.size
    sendInt P 8 block.address
    sendBlocks blocks

def invoke : ServerM Unit := do
  let trampoline ← recvSigned P 8
  let fptr ← recvSigned P 8
  let retval ← recvSigned P 8
  let len ← recvUnsigned P 4
  if len > nativeMemorySize then
    error "buffer too small to contain native memory"
  else do
    let nativeMemory ← recvBlocks P len
    modifyMemory (P.call trampoline fptr retval)
    sendInt P 4 len
    sendBlocks P nativeMemory

def sendSymbols : List (List UInt8 × Int) → ServerM Unit
  | [] => return ()
  | (name, addr) :: symbols => do
    sendInt P 4 name.length
    sendMessage name
    sendInt P 8 addr
    sendSymbols symbols

def getSymbolTable : ServerM Unit := do
  sendInt P 4 P.symbols.length
  sendSymbols P P.symbols

/-- `(size_t) v` -/
def sizeT (v : Int) : Nat := (v % 2 ^ 64).toNat

/-- `__alloc` -/
def allocMemory (size : Nat) : ServerM Int := fun s =>
  .ok (P.alloc size s.memory).1 { s with memory := (P.alloc size s.memory).2 }

def alloc : ServerM Unit := do
  let sizeParam ← recvSigned P 8
  let address ← allocMemory P (sizeT sizeParam)
  sendInt P 8 address

def syncRead : ServerM Unit := do
  let address ← recvSigned P 8
  let sizeParam ← recvSigned P 4
  sendMemory address (sizeT sizeParam)

/-- The switch, and what `exited` is after it. -/
def command : (cmd : Nat) → ServerM Bool
  | 0 => do invoke P; return false
  | 1 => do getSymbolTable P; return false
  | 2 => do alloc P; return false
  | 3 => do syncRead P; return false
  | 4 => do sendMessage [0]; return true
  | _ => error "undefined command"

/-- One turn of the loop. -/
def round : ServerM Bool := do
  let cmd ← recvUnsigned P 1
  let exited ← command P cmd
  flushMessage
  return exited

/-- `__server`; out of fuel, nothing -/
def server : Nat → Server → Option (EStateM.Result Stop Server Unit)
  | 0, _ => none
  | fuel + 1, s =>
    match round P s with
    | .ok true s' => some (.ok () s')
    | .ok false s' => server fuel s'
    | .error e s' => some (.error e s')

end Integers

/-! ## Integers and bytes -/

section Codec

variable {P : Platform} {width : Nat} {v : Int}

theorem length_bytesOf (width n : Nat) : (bytesOf width n).length = width := by
  induction width generalizing n with
  | zero => rfl
  | succ width ih => rw [bytesOf, List.length_cons, ih]

theorem valueOf_bytesOf {n : Nat} (h : n < 256 ^ width) : valueOf (bytesOf width n) = n := by
  induction width generalizing n with
  | zero =>
    rw [pow_zero] at h
    show 0 = n
    omega
  | succ width ih =>
    have hdiv : n / 256 < 256 ^ width := Nat.div_lt_of_lt_mul (by rwa [pow_succ, mul_comm] at h)
    rw [bytesOf, valueOf, ih hdiv, UInt8.toNat_ofNat']
    omega

@[simp] theorem length_encode : (encode P width v).length = width := by
  unfold encode
  cases P.bigEndian
  · exact length_bytesOf _ _
  · exact (List.length_reverse).trans (length_bytesOf _ _)

/-- An integer is read back up to its width. -/
theorem decode_encode : (decode P (encode P width v) : Int) = v % 256 ^ width := by
  have hpos : (0 : Int) < 256 ^ width := by positivity
  have hnonneg : 0 ≤ v % 256 ^ width := Int.emod_nonneg v hpos.ne'
  have hlt : (v % 256 ^ width).toNat < 256 ^ width := by
    rw [Int.toNat_lt hnonneg]
    exact_mod_cast Int.emod_lt_of_pos v hpos
  have hbytes : decode P (encode P width v) = valueOf (bytesOf width (v % 256 ^ width).toNat) := by
    unfold decode encode
    cases P.bigEndian
    · rfl
    · exact congrArg valueOf (List.reverse_reverse _)
  rw [hbytes, valueOf_bytesOf hlt, Int.toNat_of_nonneg hnonneg]

theorem decode_unsigned {n : Nat} (h : n < 256 ^ width) : decode P (encode P width n) = n := by
  have hn : (decode P (encode P width n) : Int) = n := by
    rw [decode_encode]
    exact Int.emod_eq_of_lt (Int.natCast_nonneg n) (by exact_mod_cast h)
  exact_mod_cast hn

/-- A value of the signed type -/
def Signed (width : Nat) (v : Int) : Prop := -(256 ^ width / 2) ≤ v ∧ v < 256 ^ width / 2

theorem decode_signed (hw : width ≠ 0) (h : Signed width v) :
    (decode P (encode P width v) : Int).bmod (256 ^ width) = v := by
  obtain ⟨k, hk⟩ : ∃ k : Nat, 256 ^ width = 2 * k :=
    (even_iff_exists_two_mul).1 ((by decide : Even 256).pow_of_ne_zero hw)
  have hcast : ((256 : Int) ^ width) = ((256 ^ width : Nat) : Int) := by push_cast; rfl
  rw [Signed, hcast, hk] at h
  rw [decode_encode, hcast, Int.emod_bmod, hk]
  push_cast at h
  exact Int.bmod_eq_of_le (by push_cast; omega) (by push_cast; omega)

end Codec

/-! ## The bytes that differ -/

/-- **Writing only the bytes that differ** writes all. -/
theorem writeDirty_eq (m : Memory) (ptr : Int) (buf : List UInt8) : writeDirty m ptr buf = write m ptr buf := by
  induction buf generalizing m ptr with
  | nil => rfl
  | cons b buf ih =>
    rw [writeDirty, write, ih]
    by_cases hb : m ptr ≠ b
    · rw [if_pos hb]
    · rw [if_neg hb, ← not_not.1 hb, Function.update_eq_self]

theorem write_append (m : Memory) (ptr : Int) (buf buf' : List UInt8) :
    write m ptr (buf ++ buf') = write (write m ptr buf) (ptr + buf.length) buf' := by
  induction buf generalizing m ptr with
  | nil => rw [List.nil_append, write, List.length_nil, Nat.cast_zero, add_zero]
  | cons b buf ih =>
    rw [List.cons_append, write, write, ih, List.length_cons]
    congr 1
    push_cast
    ring

/-! ## What is received -/

section Receive

variable {α β : Type} {P : Platform} {m : Memory} {rest p o : List UInt8}

theorem bind_ok {x : ServerM α} {f : α → ServerM β} {a : α} {s s' : Server} (h : x s = .ok a s') :
    (x >>= f) s = f a s' := by
  show EStateM.bind x f s = _
  rw [EStateM.bind, h]

theorem bind_error {x : ServerM α} {f : α → ServerM β} {e : Stop} {s s' : Server} (h : x s = .error e s') :
    (x >>= f) s = .error e s' := by
  show EStateM.bind x f s = _
  rw [EStateM.bind, h]

theorem recvMessage_append (buf : List UInt8) :
    recvMessage buf.length ⟨m, buf ++ rest, p, o⟩ = .ok buf ⟨m, rest, p, o⟩ := by
  rw [recvMessage, if_pos (by rw [List.length_append]; omega)]
  simp only [List.take_left, List.drop_left]

theorem recvUnsigned_encode {width n : Nat} (h : n < 256 ^ width) :
    recvUnsigned P width ⟨m, encode P width n ++ rest, p, o⟩ = .ok n ⟨m, rest, p, o⟩ := by
  have hrecv := @recvMessage_append m rest p o (encode P width n)
  rw [length_encode] at hrecv
  rw [recvUnsigned, bind_ok hrecv, decode_unsigned h]
  rfl

theorem recvSigned_encode {width : Nat} {v : Int} (hw : width ≠ 0) (h : Signed width v) :
    recvSigned P width ⟨m, encode P width v ++ rest, p, o⟩ = .ok v ⟨m, rest, p, o⟩ := by
  have hrecv := @recvMessage_append m rest p o (encode P width v)
  rw [length_encode] at hrecv
  rw [recvSigned, bind_ok hrecv, decode_signed hw h]
  rfl

/-- **The pieces of a dirty block** are the block. -/
theorem recvDirty_append (ptr : Int) (buf : List UInt8) :
    recvDirty ptr buf.length ⟨m, buf ++ rest, p, o⟩ = .ok () ⟨write m ptr buf, rest, p, o⟩ := by
  induction hn : buf.length using Nat.strongRecOn generalizing buf m ptr with
  | _ n ih =>
    subst hn
    rw [recvDirty]
    by_cases hlong : buf.length > dirtyBufferSize
    · rw [dif_pos hlong]
      have htake : (buf.take dirtyBufferSize).length = dirtyBufferSize := by
        rw [List.length_take]
        omega
      have hrecv := @recvMessage_append m (buf.drop dirtyBufferSize ++ rest) p o
        (buf.take dirtyBufferSize)
      rw [htake, ← List.append_assoc, List.take_append_drop] at hrecv
      rw [bind_ok hrecv, bind_ok (show modifyMemory _ _ = .ok () _ from rfl), writeDirty_eq]
      have hdrop : (buf.drop dirtyBufferSize).length = buf.length - dirtyBufferSize := List.length_drop
      have hpos : 0 < dirtyBufferSize := by decide
      rw [← hdrop, ih _ (by omega) _ _ rfl]
      have hwrite := write_append m ptr (buf.take dirtyBufferSize) (buf.drop dirtyBufferSize)
      rw [List.take_append_drop, htake] at hwrite
      rw [hwrite]
    · rw [dif_neg hlong, bind_ok (recvMessage_append buf)]
      show EStateM.Result.ok () (⟨writeDirty m ptr buf, rest, p, o⟩ : Server) = _
      rw [writeDirty_eq]

end Receive

/-! ## What the commands are for -/

/-- A block of memory, as the client sends it. -/
structure Block where
  address : Int
  bytes : List UInt8
  dirty : Bool

inductive Request
  | invoke (trampoline fptr retval : Int) (blocks : List Block)
  | getSymbolTable
  | alloc (size : Nat)
  | syncRead (address : Int) (size : Nat)

section Requests

variable (P : Platform)

def Block.encode (b : Block) : List UInt8 :=
  Native.encode P 8 b.address ++ (Native.encode P 1 b.dirty.toNat ++ (Native.encode P 4 b.bytes.length ++ b.bytes))

def Block.nativeMem (b : Block) : NativeMem := ⟨b.address, b.bytes.length⟩

def store (m : Memory) (blocks : List Block) : Memory := blocks.foldl (fun m b => write m b.address b.bytes) m

/-- A block as it is now. -/
def Block.now (m : Memory) (b : Block) : List UInt8 :=
  Native.encode P 4 b.bytes.length ++ (read m b.address b.bytes.length ++ Native.encode P 8 b.address)

def symbolBytes (symbol : List UInt8 × Int) : List UInt8 :=
  encode P 4 symbol.1.length ++ (symbol.1 ++ encode P 8 symbol.2)

namespace Request

/-- `__cmd_t` -/
def cmd : Request → Nat
  | .invoke _ _ _ _ => 0
  | .getSymbolTable => 1
  | .alloc _ => 2
  | .syncRead _ _ => 3

def body : Request → List UInt8
  | .invoke trampoline fptr retval blocks =>
    Native.encode P 8 trampoline ++ (Native.encode P 8 fptr ++ (Native.encode P 8 retval ++
      (Native.encode P 4 blocks.length ++ blocks.flatMap (Block.encode P))))
  | .getSymbolTable => []
  | .alloc size => Native.encode P 8 size
  | .syncRead address size => Native.encode P 8 address ++ Native.encode P 4 size

/-- What the client sends. -/
def encode (r : Request) : List UInt8 := Native.encode P 1 r.cmd ++ r.body P

/-- The memory afterwards. -/
def effect (m : Memory) : Request → Memory
  | .invoke trampoline fptr retval blocks => P.call trampoline fptr retval (store m blocks)
  | .alloc size => (P.alloc size m).2
  | .getSymbolTable | .syncRead _ _ => m

/-- What the client gets. -/
def answer (m : Memory) : Request → List UInt8
  | .invoke trampoline fptr retval blocks =>
    Native.encode P 4 blocks.length ++
      blocks.flatMap (Block.now P (P.call trampoline fptr retval (store m blocks)))
  | .getSymbolTable => Native.encode P 4 P.symbols.length ++ P.symbols.flatMap (symbolBytes P)
  | .alloc size => Native.encode P 8 (P.alloc size m).1
  | .syncRead address size => read m address size

/-- The integers have their types. -/
def Fits : Request → Prop
  | .invoke trampoline fptr retval blocks =>
    Signed 8 trampoline ∧ Signed 8 fptr ∧ Signed 8 retval ∧ blocks.length ≤ nativeMemorySize ∧
      ∀ b ∈ blocks, Signed 8 b.address ∧ b.bytes.length < 256 ^ 4
  | .getSymbolTable => True
  | .alloc size => Signed 8 size
  | .syncRead address size => Signed 8 address ∧ Signed 4 size

end Request

/-- `_EXIT` -/
def exitCommand : List UInt8 := encode P 1 (4 : Nat)

/-- The memory after some requests. -/
def effects (m : Memory) : List Request → Memory
  | [] => m
  | r :: rs => effects (r.effect P m) rs

def answers (m : Memory) : List Request → List UInt8
  | [] => []
  | r :: rs => r.answer P m ++ answers (r.effect P m) rs

end Requests

/-! ## The commands do that -/

section Commands

variable {P : Platform} {m : Memory} {rest p o : List UInt8}

theorem recvClean_append (ptr : Int) (buf : List UInt8) :
    recvClean ptr buf.length ⟨m, buf ++ rest, p, o⟩ = .ok () ⟨write m ptr buf, rest, p, o⟩ := by
  rw [recvClean, bind_ok (recvMessage_append buf)]
  rfl

theorem recvBlock_encode (b : Block) (haddress : Signed 8 b.address) (hsize : b.bytes.length < 256 ^ 4) :
    recvBlock P ⟨m, b.encode P ++ rest, p, o⟩ = .ok b.nativeMem ⟨write m b.address b.bytes, rest, p, o⟩ := by
  have hdirty : b.dirty.toNat < 256 ^ 1 := by cases b.dirty <;> decide
  rw [recvBlock, Block.encode, List.append_assoc, bind_ok (recvSigned_encode (by decide) haddress),
    List.append_assoc, bind_ok (recvUnsigned_encode hdirty), List.append_assoc, bind_ok (recvUnsigned_encode hsize)]
  cases b.dirty with
  | true =>
    rw [bind_ok (show (bif true.toNat != 0 then recvDirty _ _ else recvClean _ _) _ = .ok () _ from
      recvDirty_append b.address b.bytes)]
    rfl
  | false =>
    rw [bind_ok (show (bif false.toNat != 0 then recvDirty _ _ else recvClean _ _) _ = .ok () _ from
      recvClean_append b.address b.bytes)]
    rfl

theorem recvBlocks_encode (blocks : List Block)
    (hfit : ∀ b ∈ blocks, Signed 8 b.address ∧ b.bytes.length < 256 ^ 4) :
    recvBlocks P blocks.length ⟨m, blocks.flatMap (Block.encode P) ++ rest, p, o⟩ =
      .ok (blocks.map Block.nativeMem) ⟨store m blocks, rest, p, o⟩ := by
  induction blocks generalizing m with
  | nil => rfl
  | cons b blocks ih =>
    obtain ⟨haddress, hsize⟩ := hfit b List.mem_cons_self
    rw [List.length_cons, recvBlocks, List.flatMap_cons, List.append_assoc,
      bind_ok (recvBlock_encode b haddress hsize), bind_ok (ih fun b' hb' => hfit b' (List.mem_cons_of_mem _ hb'))]
    rfl

theorem sendBlocks_eq (blocks : List Block) :
    sendBlocks P (blocks.map Block.nativeMem) ⟨m, rest, p, o⟩ =
      .ok () ⟨m, rest, p ++ blocks.flatMap (Block.now P m), o⟩ := by
  induction blocks generalizing p with
  | nil => rw [List.flatMap_nil, List.append_nil]; rfl
  | cons b blocks ih =>
    rw [List.map_cons, sendBlocks, bind_ok (show sendInt P 4 _ _ = .ok () _ from rfl),
      bind_ok (show sendMemory _ _ _ = .ok () _ from rfl), bind_ok (show sendInt P 8 _ _ = .ok () _ from rfl), ih,
      List.flatMap_cons, Block.now]
    simp only [List.append_assoc, Block.nativeMem]

theorem sendSymbols_eq (symbols : List (List UInt8 × Int)) :
    sendSymbols P symbols ⟨m, rest, p, o⟩ = .ok () ⟨m, rest, p ++ symbols.flatMap (symbolBytes P), o⟩ := by
  induction symbols generalizing p with
  | nil => rw [List.flatMap_nil, List.append_nil]; rfl
  | cons symbol symbols ih =>
    rw [sendSymbols, bind_ok (show sendInt P 4 _ _ = .ok () _ from rfl),
      bind_ok (show sendMessage _ _ = .ok () _ from rfl), bind_ok (show sendInt P 8 _ _ = .ok () _ from rfl), ih,
      List.flatMap_cons, symbolBytes]
    simp only [List.append_assoc]

theorem command_body (r : Request) (hfit : r.Fits) :
    command P r.cmd ⟨m, r.body P ++ rest, [], o⟩ = .ok false ⟨r.effect P m, rest, r.answer P m, o⟩ := by
  cases r with
  | invoke trampoline fptr retval blocks =>
    obtain ⟨htrampoline, hfptr, hretval, hlen, hblocks⟩ := hfit
    have hlen' : blocks.length < 256 ^ 4 := lt_of_le_of_lt hlen (by decide)
    rw [Request.cmd, command, @bind_ok _ _ _ _ () _
      ⟨Request.effect P m (.invoke trampoline fptr retval blocks), rest,
        Request.answer P m (.invoke trampoline fptr retval blocks), o⟩]
    · rfl
    · rw [invoke, Request.body, List.append_assoc, bind_ok (recvSigned_encode (by decide) htrampoline),
        List.append_assoc, bind_ok (recvSigned_encode (by decide) hfptr), List.append_assoc,
        bind_ok (recvSigned_encode (by decide) hretval), List.append_assoc, bind_ok (recvUnsigned_encode hlen'),
        if_neg (not_lt.2 hlen), bind_ok (recvBlocks_encode blocks hblocks),
        bind_ok (show modifyMemory _ _ = .ok () _ from rfl), bind_ok (show sendInt P 4 _ _ = .ok () _ from rfl),
        sendBlocks_eq]
      rfl
  | getSymbolTable =>
    rw [Request.cmd, command, @bind_ok _ _ _ _ () _ ⟨m, rest, Request.answer P m .getSymbolTable, o⟩]
    · rfl
    · rw [getSymbolTable, bind_ok (show sendInt P 4 _ _ = .ok () _ from rfl), sendSymbols_eq]
      rfl
  | alloc size =>
    rw [Request.cmd, command,
      @bind_ok _ _ _ _ () _ ⟨(P.alloc size m).2, rest, Request.answer P m (.alloc size), o⟩]
    · rfl
    · have hsize : sizeT size = size := by
        have := hfit.2
        norm_num at this
        rw [sizeT]
        omega
      rw [alloc, Request.body, bind_ok (recvSigned_encode (by decide) hfit), hsize]
      rfl
  | syncRead address size =>
    rw [Request.cmd, command, @bind_ok _ _ _ _ () _ ⟨m, rest, read m address size, o⟩]
    · rfl
    · have hsize : sizeT size = size := by
        have := hfit.2.2
        norm_num at this
        rw [sizeT]
        omega
      rw [syncRead, Request.body, List.append_assoc, bind_ok (recvSigned_encode (by decide) hfit.1),
        bind_ok (recvSigned_encode (by decide) hfit.2), hsize]
      rfl

/-- **One command**: the bytes of the request go, its effect is made, its answer is flushed. -/
theorem round_encode (r : Request) (hfit : r.Fits) :
    round P ⟨m, r.encode P ++ rest, [], o⟩ = .ok false ⟨r.effect P m, rest, [], o ++ r.answer P m⟩ := by
  have hcmd : r.cmd < 256 ^ 1 := by cases r <;> simp [Request.cmd]
  rw [round, Request.encode, List.append_assoc, bind_ok (recvUnsigned_encode hcmd), bind_ok (command_body r hfit)]
  rfl

end Commands

/-! ## Listening and speaking -/

/-- With more bytes in the pipe. -/
def Server.more (s : Server) (bytes : List UInt8) : Server := { s with input := s.input ++ bytes }

/-- More bytes do not change what comes out, and what is flushed stays. -/
structure Settled {α : Type} (x : ServerM α) : Prop where
  ok : ∀ {s s' : Server} {a : α}, x s = .ok a s' →
    (s'.input.length ≤ s.input.length ∧ s.sent <+: s'.sent) ∧ ∀ bytes, x (s.more bytes) = .ok a (s'.more bytes)
  error : ∀ {s s' : Server} {msg : String}, x s = .error (.error msg) s' →
    s.sent <+: s'.sent ∧ ∀ bytes, x (s.more bytes) = .error (.error msg) (s'.more bytes)

/-- It says nothing. -/
structure Listens {α : Type} (x : ServerM α) : Prop extends Settled x where
  quiet : ∀ {s s' : Server} {a : α}, x s = .ok a s' → s'.pending = s.pending ∧ s'.sent = s.sent
  waits : ∀ {s s' : Server}, x s = .error .waits s' → s'.pending = s.pending ∧ s'.sent = s.sent

/-- It does not wait. -/
structure Speaks {α : Type} (x : ServerM α) : Prop extends Settled x where
  speaks : ∀ {s s' : Server}, x s ≠ .error .waits s'

/-- **It says nothing before it has heard all.** -/
structure Polite {α : Type} (x : ServerM α) : Prop extends Settled x where
  waits : ∀ {s s' : Server}, x s = .error .waits s' → s'.pending = s.pending ∧ s'.sent = s.sent

section Manners

variable {α β : Type} {x : ServerM α} {f : α → ServerM β}

/-- How a sequence ends. -/
theorem bind_cases (x : ServerM α) (f : α → ServerM β) (s : Server) :
    (∃ a s', x s = .ok a s' ∧ (x >>= f) s = f a s') ∨ ∃ e s', x s = .error e s' ∧ (x >>= f) s = .error e s' := by
  cases h : x s with
  | ok a s' => exact .inl ⟨a, s', rfl, bind_ok h⟩
  | error e s' => exact .inr ⟨e, s', rfl, bind_error h⟩

theorem Settled.bind (hx : Settled x) (hf : ∀ a, Settled (f a)) : Settled (x >>= f) where
  ok := by
    intro s s' b h
    rcases bind_cases x f s with ⟨a, t, hxs, hbind⟩ | ⟨e, t, hxs, hbind⟩
    · obtain ⟨⟨hlen, hsent⟩, hmore⟩ := hx.ok hxs
      obtain ⟨⟨hlen', hsent'⟩, hmore'⟩ := (hf a).ok (hbind.symm.trans h)
      exact ⟨⟨hlen'.trans hlen, hsent.trans hsent'⟩, fun bytes => (bind_ok (hmore bytes)).trans (hmore' bytes)⟩
    · cases hbind.symm.trans h
  error := by
    intro s s' msg h
    rcases bind_cases x f s with ⟨a, t, hxs, hbind⟩ | ⟨e, t, hxs, hbind⟩
    · obtain ⟨⟨-, hsent⟩, hmore⟩ := hx.ok hxs
      obtain ⟨hsent', hmore'⟩ := (hf a).error (hbind.symm.trans h)
      exact ⟨hsent.trans hsent', fun bytes => (bind_ok (hmore bytes)).trans (hmore' bytes)⟩
    · cases hbind.symm.trans h
      obtain ⟨hsent, hmore⟩ := hx.error hxs
      exact ⟨hsent, fun bytes => bind_error (hmore bytes)⟩

theorem Listens.bind (hx : Listens x) (hf : ∀ a, Listens (f a)) : Listens (x >>= f) where
  toSettled := hx.toSettled.bind fun a => (hf a).toSettled
  quiet := by
    intro s s' b h
    rcases bind_cases x f s with ⟨a, t, hxs, hbind⟩ | ⟨e, t, hxs, hbind⟩
    · obtain ⟨hp, ho⟩ := hx.quiet hxs
      obtain ⟨hp', ho'⟩ := (hf a).quiet (hbind.symm.trans h)
      exact ⟨hp'.trans hp, ho'.trans ho⟩
    · cases hbind.symm.trans h
  waits := by
    intro s s' h
    rcases bind_cases x f s with ⟨a, t, hxs, hbind⟩ | ⟨e, t, hxs, hbind⟩
    · obtain ⟨hp, ho⟩ := hx.quiet hxs
      obtain ⟨hp', ho'⟩ := (hf a).waits (hbind.symm.trans h)
      exact ⟨hp'.trans hp, ho'.trans ho⟩
    · cases hbind.symm.trans h
      exact hx.waits hxs

theorem Speaks.bind (hx : Speaks x) (hf : ∀ a, Speaks (f a)) : Speaks (x >>= f) where
  toSettled := hx.toSettled.bind fun a => (hf a).toSettled
  speaks := by
    intro s s' h
    rcases bind_cases x f s with ⟨a, t, hxs, hbind⟩ | ⟨e, t, hxs, hbind⟩
    · exact (hf a).speaks (hbind.symm.trans h)
    · cases hbind.symm.trans h
      exact hx.speaks hxs

theorem Speaks.polite (hx : Speaks x) : Polite x where
  toSettled := hx.toSettled
  waits := fun h => absurd h hx.speaks

/-- First it listens. -/
theorem Listens.bind_polite (hx : Listens x) (hf : ∀ a, Polite (f a)) : Polite (x >>= f) where
  toSettled := hx.toSettled.bind fun a => (hf a).toSettled
  waits := by
    intro s s' h
    rcases bind_cases x f s with ⟨a, t, hxs, hbind⟩ | ⟨e, t, hxs, hbind⟩
    · obtain ⟨hp, ho⟩ := hx.quiet hxs
      obtain ⟨hp', ho'⟩ := (hf a).waits (hbind.symm.trans h)
      exact ⟨hp'.trans hp, ho'.trans ho⟩
    · cases hbind.symm.trans h
      exact hx.waits hxs

/-- Last it speaks. -/
theorem Polite.bind_speaks (hx : Polite x) (hf : ∀ a, Speaks (f a)) : Polite (x >>= f) where
  toSettled := hx.toSettled.bind fun a => (hf a).toSettled
  waits := by
    intro s s' h
    rcases bind_cases x f s with ⟨a, t, hxs, hbind⟩ | ⟨e, t, hxs, hbind⟩
    · exact absurd (hbind.symm.trans h) (hf a).speaks
    · cases hbind.symm.trans h
      exact hx.waits hxs

/-- What only changes the state, and not the input, does both. -/
theorem speaks_of_eq {a : Server → α} {g : Server → Server} (hx : ∀ s, x s = .ok (a s) (g s))
    (hinput : ∀ s, (g s).input = s.input ∧ s.sent <+: (g s).sent)
    (hmore : ∀ s bytes, a (s.more bytes) = a s ∧ g (s.more bytes) = (g s).more bytes) : Speaks x where
  ok := by
    intro s s' b h
    cases (hx s).symm.trans h
    refine ⟨⟨(congrArg List.length (hinput s).1).le, (hinput s).2⟩, fun bytes => ?_⟩
    rw [hx, (hmore s bytes).1, (hmore s bytes).2]
  error := by
    intro s s' msg h
    cases (hx s).symm.trans h
  speaks := by
    intro s s' h
    cases (hx s).symm.trans h

theorem listens_of_eq {a : α} {g : Server → Server} (hx : ∀ s, x s = .ok a (g s))
    (hinput : ∀ s, (g s).input = s.input) (hmore : ∀ s bytes, g (s.more bytes) = (g s).more bytes)
    (hquiet : ∀ s, (g s).pending = s.pending ∧ (g s).sent = s.sent) : Listens x where
  toSettled := (speaks_of_eq hx (fun s => ⟨hinput s, (hquiet s).2 ▸ List.prefix_rfl⟩)
    fun s bytes => ⟨rfl, hmore s bytes⟩).toSettled
  quiet := by
    intro s s' b h
    cases (hx s).symm.trans h
    exact hquiet s
  waits := by
    intro s s' h
    cases (hx s).symm.trans h

theorem listens_pure (a : α) : Listens (pure a : ServerM α) :=
  listens_of_eq (fun _ => rfl) (fun _ => rfl) (fun _ _ => rfl) fun _ => ⟨rfl, rfl⟩

theorem speaks_pure (a : α) : Speaks (pure a : ServerM α) :=
  speaks_of_eq (fun _ => rfl) (fun _ => ⟨rfl, List.prefix_rfl⟩) fun _ _ => ⟨rfl, rfl⟩

theorem listens_modifyMemory (g : Memory → Memory) : Listens (modifyMemory g) :=
  listens_of_eq (fun _ => rfl) (fun _ => rfl) (fun _ _ => rfl) fun _ => ⟨rfl, rfl⟩

theorem speaks_modifyMemory (g : Memory → Memory) : Speaks (modifyMemory g) :=
  speaks_of_eq (fun _ => rfl) (fun _ => ⟨rfl, List.prefix_rfl⟩) fun _ _ => ⟨rfl, rfl⟩

theorem speaks_sendMessage (buf : List UInt8) : Speaks (sendMessage buf) :=
  speaks_of_eq (fun _ => rfl) (fun _ => ⟨rfl, List.prefix_rfl⟩) fun _ _ => ⟨rfl, rfl⟩

theorem speaks_sendMemory (address : Int) (len : Nat) : Speaks (sendMemory address len) :=
  speaks_of_eq (fun _ => rfl) (fun _ => ⟨rfl, List.prefix_rfl⟩) fun _ _ => ⟨rfl, rfl⟩

theorem speaks_flushMessage : Speaks flushMessage :=
  speaks_of_eq (fun _ => rfl) (fun _ => ⟨rfl, List.prefix_append _ _⟩) fun _ _ => ⟨rfl, rfl⟩

theorem speaks_error (msg : String) : Speaks (error msg : ServerM α) where
  ok := by
    intro s s' a h
    cases h
  error := by
    intro s s' msg' h
    cases h
    exact ⟨List.prefix_rfl, fun _ => rfl⟩
  speaks := by
    intro s s' h
    cases h

theorem listens_recvMessage (len : Nat) : Listens (recvMessage len) := by
  have hcases : ∀ s : Server, (len ≤ s.input.length ∧
      recvMessage len s = .ok (s.input.take len) { s with input := s.input.drop len }) ∨
      recvMessage len s = .error .waits s := by
    intro s
    by_cases h : len ≤ s.input.length
    · exact .inl ⟨h, if_pos h⟩
    · exact .inr (if_neg h)
  refine { ok := ?_, error := ?_, quiet := ?_, waits := ?_ }
  · intro s s' a h
    rcases hcases s with ⟨hlen, hs⟩ | hs
    · cases hs.symm.trans h
      refine ⟨⟨by rw [List.length_drop]; omega, List.prefix_rfl⟩, fun bytes => ?_⟩
      have hmore : len ≤ (s.more bytes).input.length := by
        rw [Server.more, List.length_append]
        omega
      rw [recvMessage, if_pos hmore, Server.more, List.take_append_of_le_length hlen,
        List.drop_append_of_le_length hlen]
      rfl
    · cases hs.symm.trans h
  · intro s s' msg h
    rcases hcases s with ⟨-, hs⟩ | hs
    · cases hs.symm.trans h
    · cases hs.symm.trans h
  · intro s s' a h
    rcases hcases s with ⟨-, hs⟩ | hs
    · cases hs.symm.trans h
      exact ⟨rfl, rfl⟩
    · cases hs.symm.trans h
  · intro s s' h
    rcases hcases s with ⟨-, hs⟩ | hs
    · cases hs.symm.trans h
    · cases hs.symm.trans h
      exact ⟨rfl, rfl⟩

end Manners

section Polite

variable (P : Platform)

theorem listens_recvUnsigned (width : Nat) : Listens (recvUnsigned P width) :=
  (listens_recvMessage width).bind fun _ => listens_pure _

theorem listens_recvSigned (width : Nat) : Listens (recvSigned P width) :=
  (listens_recvMessage width).bind fun _ => listens_pure _

theorem listens_recvDirty (ptr : Int) (remaining : Nat) : Listens (recvDirty ptr remaining) := by
  induction remaining using Nat.strongRecOn generalizing ptr with
  | _ n ih =>
    rw [recvDirty]
    by_cases hlong : n > dirtyBufferSize
    · rw [dif_pos hlong]
      have hpos : 0 < dirtyBufferSize := by decide
      exact (listens_recvMessage _).bind fun _ => (listens_modifyMemory _).bind fun _ => ih _ (by omega) _
    · rw [dif_neg hlong]
      exact (listens_recvMessage _).bind fun _ => listens_modifyMemory _

theorem listens_recvBlock : Listens (recvBlock P) := by
  refine (listens_recvSigned P 8).bind fun address => (listens_recvUnsigned P 1).bind fun isDirty =>
    (listens_recvUnsigned P 4).bind fun len => Listens.bind ?_ fun _ => listens_pure _
  cases isDirty != 0 with
  | true => exact listens_recvDirty address len
  | false => exact (listens_recvMessage len).bind fun _ => listens_modifyMemory _

theorem listens_recvBlocks (n : Nat) : Listens (recvBlocks P n) := by
  induction n with
  | zero => exact listens_pure _
  | succ n ih => exact (listens_recvBlock P).bind fun _ => ih.bind fun _ => listens_pure _

theorem speaks_sendInt (width : Nat) (v : Int) : Speaks (sendInt P width v) := speaks_sendMessage _

theorem speaks_sendBlocks (blocks : List NativeMem) : Speaks (sendBlocks P blocks) := by
  induction blocks with
  | nil => exact speaks_pure _
  | cons block blocks ih =>
    exact (speaks_sendInt P 4 _).bind fun _ => (speaks_sendMemory _ _).bind fun _ =>
      (speaks_sendInt P 8 _).bind fun _ => ih

theorem speaks_sendSymbols (symbols : List (List UInt8 × Int)) : Speaks (sendSymbols P symbols) := by
  induction symbols with
  | nil => exact speaks_pure _
  | cons symbol symbols ih =>
    exact (speaks_sendInt P 4 _).bind fun _ => (speaks_sendMessage _).bind fun _ =>
      (speaks_sendInt P 8 _).bind fun _ => ih

theorem polite_invoke : Polite (invoke P) := by
  refine (listens_recvSigned P 8).bind_polite fun trampoline => (listens_recvSigned P 8).bind_polite fun fptr =>
    (listens_recvSigned P 8).bind_polite fun retval => (listens_recvUnsigned P 4).bind_polite fun len => ?_
  by_cases hlen : len > nativeMemorySize
  · rw [if_pos hlen]
    exact (speaks_error _).polite
  · rw [if_neg hlen]
    exact (listens_recvBlocks P len).bind_polite fun blocks => ((speaks_modifyMemory _).bind fun _ =>
      (speaks_sendInt P 4 _).bind fun _ => speaks_sendBlocks P blocks).polite

theorem polite_alloc : Polite (alloc P) := by
  refine (listens_recvSigned P 8).bind_polite fun size => Speaks.polite (Speaks.bind ?_ fun _ => speaks_sendInt P 8 _)
  exact speaks_of_eq (fun _ => rfl) (fun _ => ⟨rfl, List.prefix_rfl⟩) fun _ _ => ⟨rfl, rfl⟩

theorem polite_command (cmd : Nat) : Polite (command P cmd) := by
  unfold command
  split
  · exact (polite_invoke P).bind_speaks fun _ => speaks_pure _
  · exact (((speaks_sendInt P 4 _).bind fun _ => speaks_sendSymbols P _).bind fun _ => speaks_pure _).polite
  · exact (polite_alloc P).bind_speaks fun _ => speaks_pure _
  · exact ((listens_recvSigned P 8).bind_polite fun _ => (listens_recvSigned P 4).bind_polite fun _ =>
      (speaks_sendMemory _ _).polite).bind_speaks fun _ => speaks_pure _
  · exact ((speaks_sendMessage _).bind fun _ => speaks_pure _).polite
  · exact (speaks_error _).polite

theorem polite_round : Polite (round P) :=
  (listens_recvUnsigned P 1).bind_polite fun cmd => (polite_command P cmd).bind_speaks fun _ =>
    speaks_flushMessage.bind fun _ => speaks_pure _

end Polite

/-! ## The loop -/

section Loop

variable {P : Platform} {s s' : Server} {m : Memory} {o : List UInt8}

/-- After a turn everything is flushed, and the command is gone. -/
theorem round_ok {b : Bool} (h : round P s = .ok b s') : s'.pending = [] ∧ s'.input.length < s.input.length := by
  rcases bind_cases (recvUnsigned P 1) _ s with ⟨cmd, t, hcmd, hbind⟩ | ⟨e, t, -, hbind⟩
  · have hlt : t.input.length < s.input.length := by
      rcases bind_cases (recvMessage 1) _ s with ⟨bytes, u, hbytes, hrest⟩ | ⟨e, u, -, hrest⟩
      · cases hrest.symm.trans hcmd
        rw [recvMessage] at hbytes
        by_cases hlen : 1 ≤ s.input.length
        · rw [if_pos hlen] at hbytes
          cases hbytes
          show (s.input.drop 1).length < _
          rw [List.length_drop]
          omega
        · rw [if_neg hlen] at hbytes
          cases hbytes
      · cases hrest.symm.trans hcmd
    have hle : s'.input.length ≤ t.input.length :=
      (((polite_command P cmd).bind_speaks fun _ => speaks_flushMessage.bind fun _ => speaks_pure _).ok
        (hbind.symm.trans h)).1.1
    refine ⟨?_, lt_of_le_of_lt hle hlt⟩
    rcases bind_cases (command P cmd) _ t with ⟨exited, u, -, hflush⟩ | ⟨e, u, -, hflush⟩
    · cases (hbind.trans hflush).symm.trans h
      rfl
    · cases (hbind.trans hflush).symm.trans h
  · cases hbind.symm.trans h

/-- The server where it stops. -/
def final : EStateM.Result Stop Server Unit → Server
  | .ok _ s => s
  | .error _ s => s

/-- One turn more. -/
theorem server_cases {fuel : Nat} {r : EStateM.Result Stop Server Unit} (h : server P (fuel + 1) s = some r) :
    (∃ t, round P s = .ok true t ∧ r = .ok () t) ∨ (∃ t, round P s = .ok false t ∧ server P fuel t = some r) ∨
      ∃ e t, round P s = .error e t ∧ r = .error e t := by
  rw [server] at h
  cases hround : round P s with
  | ok exited t =>
    rw [hround] at h
    cases exited with
    | true => exact .inl ⟨t, rfl, (Option.some.inj h).symm⟩
    | false => exact .inr (.inl ⟨t, rfl, h⟩)
  | error e t =>
    rw [hround] at h
    exact .inr (.inr ⟨e, t, rfl, (Option.some.inj h).symm⟩)

/-- There is fuel enough. -/
theorem server_enough {fuel : Nat} (h : s.input.length < fuel) : ∃ r, server P fuel s = some r := by
  induction fuel generalizing s with
  | zero => exact absurd h (Nat.not_lt_zero _)
  | succ fuel ih =>
    rw [server]
    cases hround : round P s with
    | ok exited t =>
      cases exited with
      | true => exact ⟨_, rfl⟩
      | false => exact ih (by have := (round_ok hround).2; omega)
    | error e t => exact ⟨_, rfl⟩

theorem server_flushed {fuel : Nat} {r : EStateM.Result Stop Server Unit} (hs : s.pending = [])
    (h : server P fuel s = some r) (hr : ∀ msg t, r ≠ .error (.error msg) t) : (final r).pending = [] := by
  induction fuel generalizing s with
  | zero => cases h
  | succ fuel ih =>
    rcases server_cases h with ⟨t, hround, rfl⟩ | ⟨t, hround, hnext⟩ | ⟨e, t, hround, rfl⟩
    · exact (round_ok hround).1
    · exact ih (round_ok hround).1 hnext
    · cases e with
      | waits => exact ((polite_round P).waits hround).1.trans hs
      | error msg => exact absurd rfl (hr msg t)

theorem server_sent {fuel : Nat} {r : EStateM.Result Stop Server Unit} (h : server P fuel s = some r) :
    s.sent <+: (final r).sent := by
  induction fuel generalizing s with
  | zero => cases h
  | succ fuel ih =>
    rcases server_cases h with ⟨t, hround, rfl⟩ | ⟨t, hround, hnext⟩ | ⟨e, t, hround, rfl⟩
    · exact ((polite_round P).ok hround).1.2
    · exact ((polite_round P).ok hround).1.2.trans (ih hnext)
    · cases e with
      | waits => exact ((polite_round P).waits hround).2 ▸ List.prefix_rfl
      | error msg => exact ((polite_round P).error hround).1

/-- What comes later changes nothing of what is said. -/
theorem server_more {fuel fuel' : Nat} {r r' : EStateM.Result Stop Server Unit} (bytes : List UInt8)
    (h : server P fuel s = some r) (h' : server P fuel' (s.more bytes) = some r') :
    (final r).sent <+: (final r').sent := by
  induction fuel generalizing s fuel' with
  | zero => cases h
  | succ fuel ih =>
    cases fuel' with
    | zero => cases h'
    | succ fuel' =>
      rcases server_cases h with ⟨t, hround, rfl⟩ | ⟨t, hround, hnext⟩ | ⟨e, t, hround, rfl⟩
      · rw [server, ((polite_round P).ok hround).2 bytes] at h'
        cases h'
        exact List.prefix_rfl
      · rw [server, ((polite_round P).ok hround).2 bytes] at h'
        exact ih hnext h'
      · cases e with
        | waits =>
          show t.sent <+: _
          rw [((polite_round P).waits hround).2]
          exact server_sent (s := s.more bytes) h'
        | error msg =>
          rw [server, ((polite_round P).error hround).2 bytes] at h'
          cases h'
          exact List.prefix_rfl

/-- Memory of zeros, and native code that stores 7. -/
def smallPlatform : Platform where
  bigEndian := false
  call := fun _ _ retval m => Function.update m retval 7
  alloc := fun _ m => (4096, m)
  symbols := [([102], 64)]

/-- Requests, one after the other. -/
def requests (P : Platform) (rs : List Request) : List UInt8 := rs.flatMap (Request.encode P)

theorem server_requests (rs : List Request) (hfit : ∀ r ∈ rs, r.Fits) (rest : List UInt8) (fuel : Nat) :
    server P (rs.length + fuel) ⟨m, requests P rs ++ rest, [], o⟩ =
      server P fuel ⟨effects P m rs, rest, [], o ++ answers P m rs⟩ := by
  induction rs generalizing m o with
  | nil => rw [List.length_nil, Nat.zero_add, answers, List.append_nil]; rfl
  | cons r rs ih =>
    rw [List.length_cons, Nat.add_right_comm, server, requests, List.flatMap_cons, List.append_assoc,
      round_encode r (hfit r List.mem_cons_self)]
    refine (ih (fun r' hr' => hfit r' (List.mem_cons_of_mem _ hr'))).trans ?_
    rw [answers, effects, List.append_assoc]

theorem round_exit (rest : List UInt8) :
    round P ⟨m, exitCommand P ++ rest, [], o⟩ = .ok true ⟨m, rest, [], o ++ [0]⟩ := by
  rw [round, exitCommand, bind_ok (recvUnsigned_encode (by decide))]
  rfl

/-- A part of a request is not answered. -/
theorem round_part (r : Request) (hfit : r.Fits) {part : List UInt8} (hpart : part <+: r.encode P)
    (hne : part ≠ r.encode P) : ∃ t, round P ⟨m, part, [], o⟩ = .error .waits t ∧ t.pending = [] ∧ t.sent = o := by
  obtain ⟨bytes, hbytes⟩ := hpart
  have hwhole := @round_encode P m [] o r hfit
  rw [List.append_nil, ← hbytes] at hwhole
  cases hround : round P ⟨m, part, [], o⟩ with
  | ok exited t =>
    -- then the rest of the request is left, and nothing is
    have hmore := ((polite_round P).ok hround).2 bytes
    have hinput := congrArg Server.input (EStateM.Result.ok.inj (hmore.symm.trans hwhole)).2
    have hnil := (List.append_eq_nil_iff.1 hinput).2
    exact absurd (by rw [← hbytes, hnil, List.append_nil]) hne
  | error e t =>
    cases e with
    | waits => exact ⟨t, rfl, (polite_round P).waits hround⟩
    | error msg => cases (((polite_round P).error hround).2 bytes).symm.trans hwhole

/-- A call that gets two bytes, and then another byte is read. -/
def callAndRead : List Request := [.invoke 16 32 99 [⟨99, [1, 2], true⟩], .syncRead 100 1]

theorem callAndRead_fit : ∀ r ∈ callAndRead, r.Fits := by
  simp [callAndRead, Request.Fits, Signed, nativeMemorySize]

end Loop

end CSemantics.Native
