import Mathlib.Algebra.Group.Nat.Defs
import Mathlib.Logic.Function.Basic
import CoActionOS.Errno

/-!
# The heap of a process

The heap is an array of chunks of `MALLOC_CHUNK_SIZE` bytes from `procmem_base->base` on.  `chunk i`
is the header that the code reads at the `i`-th of them, whether or not a header was ever put there;
the payload bytes are not modelled.  Pointers are byte offsets from `base`, and `0` is the null
pointer (no payload starts at offset `0`).

`procmem_base` and `reent_ptr` are not null.  The stack pointer that `_sbrk_r` compares with is an
argument: the offset of the stack from `base`, or `none` where `task_get_sbrk_stack_ptr` gives a null
pointer.  `owner` is the task id that `malloc_set_chunk_used` records.

A corrupt header makes `malloc_chunk_is_free` kill the process and loop for ever, so a call that
meets one does not return: the result is `none`.  The loops over the chunks take fuel, and running
out of it is `none` as well; `HeapClient.Reachable.returns` says that neither happens.
-/

namespace CoActionOS

open Function

/-- `MALLOC_CHUNK_SIZE` -/
def mallocChunkSize : Nat := 64

/-- `MALLOC_SBRK_JUMP_SIZE` -/
def mallocSbrkJumpSize : Nat := 128

/-- The bytes of a chunk in front of `memory`. -/
def mallocHeaderSize : Nat := 8

/-- `MALLOC_DATA_SIZE` -/
def mallocDataSize : Nat := mallocChunkSize - mallocHeaderSize

/-- The header of `malloc_chunk_t`. -/
structure MallocChunk where
  /-- `uint8_t` -/
  taskId : Nat
  /-- `uint8_t` -/
  signature : Nat
  /-- `uint16_t` -/
  numChunks : Nat
  /-- `uint32_t` -/
  actualSize : Nat
  deriving DecidableEq, Repr

namespace MallocChunk

/-- `(uint8_t)~(num_chunks ^ actual_size)` -/
def checksum (c : MallocChunk) : Nat := 255 - (c.numChunks ^^^ c.actualSize) % 256

/-- `malloc_chunk_is_free`; a corrupt chunk ends the process. -/
def isFree (c : MallocChunk) : Option Bool :=
  if c.signature ≠ c.checksum then none else some (c.actualSize == 0)

/-- `malloc_set_chunk_free` -/
def setFree (c : MallocChunk) : MallocChunk :=
  { c with actualSize := 0, signature := { c with actualSize := 0 }.checksum }

/-- `malloc_set_chunk_used` -/
def setUsed (owner numChunks actualSize : Nat) : MallocChunk where
  taskId := owner % 2 ^ 8
  signature := 255 - (numChunks ^^^ actualSize) % 256
  numChunks := numChunks
  actualSize := actualSize

end MallocChunk

structure Heap where
  chunk : Nat → MallocChunk
  /-- `procmem_base->size` -/
  size : Nat

/-- The arithmetic of `malloc_calc_num_chunks` is `uint32_t`, the result is cut to `uint16_t`. -/
def mallocCalcNumChunks (size : Nat) : Nat :=
  if size > mallocDataSize then
    ((size - mallocDataSize + mallocChunkSize - 1) % 2 ^ 32 / mallocChunkSize + 1) % 2 ^ 16
  else 1

/-- The offset of `chunk->memory`. -/
def memoryOf (i : Nat) : Nat := mallocChunkSize * i + mallocHeaderSize

/-- `malloc_chunk_from_addr`, as an index. -/
def mallocChunkFromAddr (addr : Nat) : Nat := (addr - mallocHeaderSize) / mallocChunkSize

namespace Heap

variable (h : Heap)

def set (i : Nat) (c : MallocChunk) : Heap := { h with chunk := update h.chunk i c }

/-- The index one past the last chunk, where the sentinel is. -/
def last : Nat := h.size / mallocChunkSize

/-- Fuel for the loops that go from chunk to chunk. -/
def fuel : Nat := h.last + 1

/-- Set `num_chunks`, then `malloc_set_chunk_free`. -/
def putFree (i numChunks : Nat) : Heap :=
  h.set i { h.chunk i with numChunks := numChunks }.setFree

def putUsed (i owner numChunks actualSize : Nat) : Heap :=
  h.set i (MallocChunk.setUsed owner numChunks actualSize)

/-- `set_last_chunk` -/
def setLastChunk (i : Nat) : Heap :=
  h.set i { h.chunk i with numChunks := 0, actualSize := 0, signature := 255 }

def findFreeChunk (numChunks : Nat) : Nat → Nat → Option (Option Nat)
  | 0, _ => none
  | fuel + 1, i =>
    if (h.chunk i).numChunks = 0 then some none
    else do
      let isFree ← (h.chunk i).isFree
      if isFree && (h.chunk i).numChunks ≥ numChunks then some (some i)
      else findFreeChunk numChunks fuel (i + (h.chunk i).numChunks)

/-- `is_memory_corrupt`, which only returns if it meets no corrupt chunk. -/
def isMemoryCorrupt : Nat → Nat → Option Unit
  | 0, _ => none
  | fuel + 1, i =>
    if (h.chunk i).numChunks = 0 then some ()
    else do
      let _ ← (h.chunk i).isFree
      isMemoryCorrupt fuel (i + (h.chunk i).numChunks)

/-- The loop of `cleanup_memory`. -/
def cleanupLoop : Nat → Heap → Nat → Nat → Option Heap
  | 0, _, _, _ => none
  | fuel + 1, h, current, next =>
    if (h.chunk next).numChunks = 0 then some h
    else do
      let currentFree ← (h.chunk current).isFree
      let nextFree ← (h.chunk next).isFree
      if currentFree && nextFree then
        let h := h.putFree current
          (((h.chunk current).numChunks + (h.chunk next).numChunks) % 2 ^ 16)
        cleanupLoop fuel h current (next + (h.chunk next).numChunks)
      else cleanupLoop fuel h next (next + (h.chunk next).numChunks)

def cleanupMemory : Option Heap := cleanupLoop h.fuel h 0 (0 + (h.chunk 0).numChunks)

/-- `_sbrk_r`, by `MALLOC_SBRK_JUMP_SIZE`. -/
def sbrk (stack : Option Int) : Option Heap :=
  match stack with
  | some stack =>
    if (h.size + mallocSbrkJumpSize : Int) > stack - mallocSbrkJumpSize then none
    else some { h with size := h.size + mallocSbrkJumpSize }
  | none => some { h with size := h.size + mallocSbrkJumpSize }

/-- `none` is the result `-1`. -/
def getMoreMemory (stack : Option Int) : Option Heap := do
  let h' ← h.sbrk stack
  let chunk := h.last
  let num := mallocSbrkJumpSize / mallocChunkSize
  some ((h'.putFree chunk num).setLastChunk (chunk + num))

/-- The end of `_malloc_r` on the chunk found: split it if it is longer than needed.  It is never
shorter. -/
def takeChunk (i numChunks owner size : Nat) : Heap :=
  let h :=
    if (h.chunk i).numChunks > numChunks then
      h.putFree (i + numChunks) ((h.chunk i).numChunks - numChunks)
    else h
  h.putUsed i owner numChunks size

/-- The loop of `_malloc_r`: the heap, the pointer and `errno` if it is set. -/
def mallocLoop (numChunks owner size : Nat) (stack : Option Int) :
    Nat → Heap → Option (Heap × Nat × Option Errno)
  | 0, _ => none
  | fuel + 1, h => do
    match ← h.findFreeChunk numChunks h.fuel 0 with
    | some i => some (h.takeChunk i numChunks owner size, memoryOf i, none)
    | none =>
      let _ ← h.isMemoryCorrupt h.fuel 0
      match h.getMoreMemory stack with
      | none => some (h, 0, some .enomem)
      | some h => mallocLoop numChunks owner size stack fuel (← h.cleanupMemory)

def malloc (size owner : Nat) (stack : Option Int) : Option (Heap × Nat × Option Errno) :=
  let numChunks := mallocCalcNumChunks size
  let h' := if h.size = 0 then h.getMoreMemory stack else some h
  match h' with
  | none => some (h, 0, some .enomem)
  | some h => mallocLoop numChunks owner size stack (numChunks + 2) h

/-- `_free_r` -/
def free (addr : Nat) : Option Heap :=
  if addr = 0 then some h
  else if (addr - mallocHeaderSize) % mallocChunkSize ≠ 0 then some h
  else do
    let chunk := mallocChunkFromAddr addr
    if ← (h.chunk chunk).isFree then some h
    else (h.putFree chunk (h.chunk chunk).numChunks).cleanupMemory

/-- The loop of `malloc_free_task_r`. -/
def freeTaskLoop (taskId : Nat) : Nat → Heap → Nat → Option Heap
  | 0, _, _ => none
  | fuel + 1, h, i =>
    if (h.chunk i).numChunks = 0 then some h
    else do
      let next := i + (h.chunk i).numChunks
      let h ← if (h.chunk i).taskId = taskId then h.free (memoryOf i) else some h
      freeTaskLoop taskId fuel h next

def mallocFreeTask (taskId : Nat) : Option Heap := freeTaskLoop taskId h.fuel h 0

/-- `_realloc_r` grows by allocating anew and freeing the old chunk. -/
def reallocMove (addr size owner : Nat) (stack : Option Int) :
    Option (Heap × Nat × Option Errno) := do
  let (h, alloc, errno) ← h.malloc size owner stack
  if alloc ≠ 0 then some (← h.free addr, alloc, errno) else some (h, alloc, errno)

def realloc (addr size owner : Nat) (stack : Option Int) : Option (Heap × Nat × Option Errno) :=
  if size = 0 then do some (← h.free addr, 0, none)
  else if addr = 0 then h.malloc size owner stack
  else if h.size = 0 then some (h, 0, some .enomem)
  else do
    let numChunks := mallocCalcNumChunks size
    let chunk := mallocChunkFromAddr addr
    let num := (h.chunk chunk).numChunks
    if ← (h.chunk chunk).isFree then some (h, 0, some .einval)
    else if numChunks < num then
      let h := h.putUsed chunk owner numChunks size
      some (h.putFree (chunk + numChunks) (num - numChunks), addr, none)
    else do
      let next := chunk + num
      let freeChunks := ((h.chunk next).numChunks + num) % 2 ^ 16
      if ← (h.chunk next).isFree then
        if freeChunks < numChunks then
          let h := h.putUsed chunk owner numChunks size
          some (h.putFree (chunk + numChunks) (numChunks - freeChunks), addr, none)
        else if freeChunks = numChunks then
          some (h.putUsed chunk owner numChunks size, addr, none)
        else h.reallocMove addr size owner stack
      else h.reallocMove addr size owner stack

end Heap

end CoActionOS
