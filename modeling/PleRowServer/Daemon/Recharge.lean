/-
rowserverd.c, the RECHARGE sweep: `elapsed_ms`, `resident_pages`,
`touch_range` and `recharge_map`, as programs over the system calls and
atomic operations they make.

Offsets into the mapping are plain numbers: the mapping is shorter than
2^40 bytes and a slice no longer than 2^32, so no size_t of the source
wraps. The u32 and u64 counters of the report are machine words.
-/
import PleRowServer.Base.Prog
import PleRowServer.Daemon.Codec

namespace PleRowServer.Daemon

open Base

-- =========================================================== constants

def WARM_CHUNK : Nat := 64 * 2 ^ 20
def MINCORE_PAGES : Nat := 2 ^ 15
def RECHARGE_SLICE_MIB : Nat := 1024
def RECHARGE_MAX_SLICE_MIB : Nat := 4096
def RECHARGE_MAX_SECS : Nat := 600

-- ============================================================= actions

/-- `struct timespec`. -/
structure Timespec where
  sec : Int
  nsec : Int
deriving DecidableEq, Repr

/-- The advice the source gives madvise. -/
inductive Advice
  | normal | random | willneed | dontneed
deriving DecidableEq, Repr

/-- One system call, atomic operation or load from the mapping. -/
inductive Call
  /-- `atomic_exchange(&sweeping, 1)` -/
  | exchange
  /-- `atomic_store(&sweeping, 0)` -/
  | release
  /-- `clock_gettime(CLOCK_MONOTONIC)` -/
  | clock
  /-- `pthread_mutex_lock(&vec_lock)` -/
  | lock
  | unlock
  /-- `mincore(map + off, len, vec)` -/
  | mincore (off len : Nat)
  /-- `madvise(map + off, len, advice)` -/
  | madvise (off len : Nat) (advice : Advice)
  /-- `posix_fadvise(fd, off, len, POSIX_FADV_DONTNEED)` -/
  | fadvise (off len : Nat)
  /-- `map[at]` -/
  | load (at_ : Nat)
  /-- the answer to a RECHARGE -/
  | answer (status : UInt32) (rep : Option RechargeReport)
deriving DecidableEq

/-- What a call returns: whether the flag was set, the time, the
residency vector unless mincore failed, whether madvise succeeded, the
error number of posix_fadvise. -/
def Reply : Call → Type
  | .exchange => Bool
  | .clock => Timespec
  | .mincore _ _ => Option (List UInt8)
  | .madvise _ _ _ => Bool
  | .fadvise _ _ => Nat
  | .load _ => UInt8
  | _ => Unit

/-- A thread of the daemon. -/
abbrev Thread (α : Type) := Prog Call Reply α

def atomicExchange : Thread Bool := Prog.perform Call.exchange
def atomicRelease : Thread Unit := Prog.perform Call.release
def clockGettime : Thread Timespec := Prog.perform Call.clock
def lockVec : Thread Unit := Prog.perform Call.lock
def unlockVec : Thread Unit := Prog.perform Call.unlock

def mincore (off len : Nat) : Thread (Option (List UInt8)) :=
  Prog.perform (Call.mincore off len)

def madvise (off len : Nat) (advice : Advice) : Thread Bool :=
  Prog.perform (Call.madvise off len advice)

def posixFadvise (off len : Nat) : Thread Nat :=
  Prog.perform (Call.fadvise off len)

def load (at_ : Nat) : Thread UInt8 := Prog.perform (Call.load at_)

def answer (status : UInt32) (rep : Option RechargeReport) : Thread Unit :=
  Prog.perform (Call.answer status rep)

-- =============================================================== helpers

/-- `elapsed_ms`, the two times being read. -/
def elapsedBetween (since now : Timespec) : Nat :=
  ((now.sec - since.sec) * 1000
    + (now.nsec - since.nsec).tdiv 1000000).toNat

/-- `elapsed_ms`. -/
def elapsedMs (since : Timespec) : Thread Nat := do
  return elapsedBetween since (← clockGettime)

/-- The loop of resident_pages at `off`; none once mincore failed. The
bytes left bound its rounds. -/
def residentLoop (s : Server) : Nat → Nat → Nat → Thread (Option Nat)
  | 0, _, resident => pure (some resident)
  | rounds + 1, off, resident =>
      if off < s.map.length then do
        let span := MINCORE_PAGES * s.pageSize
        let len := min (s.map.length - off) span
        let pages := (len + s.pageSize - 1) / s.pageSize
        match ← mincore off len with
        | none => pure none
        | some vec =>
            residentLoop s rounds (off + span)
              (resident + (List.range pages).countP
                fun i => vec.getD i 0 &&& 1 ≠ 0)
      else pure (some resident)

/-- `resident_pages`. -/
def residentPages (s : Server) : Thread Nat := do
  lockVec
  let resident ← residentLoop s s.map.length 0 0
  unlockVec
  return resident.getD 0

/-- The inner loop of touch_range at `p`. -/
def touchPages (s : Server) (pos chunk : Nat) : Nat → Nat → Thread Unit
  | 0, _ => pure ()
  | rounds + 1, p =>
      if p < chunk then do
        let _ ← load (pos + p)
        touchPages s pos chunk rounds (p + s.pageSize)
      else pure ()

/-- The outer loop of touch_range at `pos`. -/
def touchChunks (s : Server) (stop : Nat) : Nat → Nat → Thread Unit
  | 0, _ => pure ()
  | rounds + 1, pos =>
      if pos < stop then do
        let chunk := min (stop - pos) WARM_CHUNK
        let next := pos + WARM_CHUNK
        if next < stop then
          let _ ← madvise next (min (stop - next) WARM_CHUNK) .willneed
        touchPages s pos chunk chunk 0
        touchChunks s stop rounds next
      else pure ()

/-- `touch_range`. -/
def touchRange (s : Server) (off len : Nat) : Thread Unit :=
  if len = 0 then pure ()
  else do
    let _ ← madvise off len .normal
    let _ ← madvise off (min len WARM_CHUNK) .willneed
    touchChunks s (off + len) len off
    let _ ← madvise off len .random

-- ================================================================ sweep

/-- The loop of recharge_map at `off`: the status and what the report
has counted. The bytes left bound its rounds. -/
def sweepLoop (s : Server) (t0 : Timespec) (sliceBytes : Nat) :
    Nat → Nat → RechargeReport → Thread (UInt32 × RechargeReport)
  | 0, _, rep => pure (ST_OK, rep)
  | rounds + 1, off, rep =>
      if off < s.map.length then do
        let len := min (s.map.length - off) sliceBytes
        if (← elapsedMs t0) ≥ RECHARGE_MAX_SECS * 1000 then
          pure (ST_OK, rep)
        else
          if !(← madvise off len .dontneed) then pure (ST_INTERNAL, rep)
          else
            if (← posixFadvise off len) ≠ 0 then
              touchRange s off len
              pure (ST_INTERNAL, rep)
            else
              touchRange s off len
              sweepLoop s t0 sliceBytes rounds (off + sliceBytes)
                { rep with
                  pagesRecharged := rep.pagesRecharged
                    + UInt64.ofNat ((len + s.pageSize - 1) / s.pageSize)
                  slicesDone := rep.slicesDone + 1 }
      else pure (ST_OK, rep)

/-- The slice of a request in MiB: 0 asks for the default. -/
def sliceMib (arg : UInt32) : Nat :=
  if arg = 0 then RECHARGE_SLICE_MIB else arg.toNat

/-- recharge_map from the clock on: the part behind the flag. -/
def sweep (s : Server) (mib : Nat) : Thread (UInt32 × RechargeReport) := do
  let t0 ← clockGettime
  let sliceBytes := mib * 2 ^ 20
  let before ← residentPages s
  let (st, rep) ← sweepLoop s t0 sliceBytes s.map.length 0
    { pagesBefore := UInt64.ofNat before, pagesAfter := 0
      pagesRecharged := 0, slicesDone := 0
      slicesTotal := UInt32.ofNat
        ((s.map.length + sliceBytes - 1) / sliceBytes)
      slicePages := UInt32.ofNat (sliceBytes / s.pageSize), elapsedMs := 0 }
  let after ← residentPages s
  let ms ← elapsedMs t0
  atomicRelease
  return (st, { rep with
    pagesAfter := UInt64.ofNat after, elapsedMs := UInt32.ofNat ms })

/-- `recharge_map`: the status, and the report if it was filled in. -/
def rechargeMap (s : Server) (arg : UInt32) :
    Thread (UInt32 × Option RechargeReport) :=
  if sliceMib arg > RECHARGE_MAX_SLICE_MIB then pure (ST_BAD_PARAM, none)
  else do
    if ← atomicExchange then pure (ST_BUSY, none)
    else
      let (st, rep) ← sweep s (sliceMib arg)
      return (st, some rep)

/-- serve_conn's OP_RECHARGE: the sweep and its answer, the report only
where the status is 0. -/
def serveRecharge (s : Server) (arg : UInt16) : Thread Unit := do
  let (st, rep) ← rechargeMap s arg.toUInt32
  answer st (if st ≠ ST_OK then none else rep)

end PleRowServer.Daemon
