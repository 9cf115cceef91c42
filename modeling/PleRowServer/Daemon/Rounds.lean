/-
How long a connection's loops go on. Every loop of ServeConn.lean runs
at most `fuel` rounds, and one that runs out leaves the connection
waiting. Here is why that never stands for an ending of its own: a
round of any of them makes at least one call, so a run that is waiting
has made `fuel` calls, and a finite run with more fuel than calls has
ended in one of the ways serve_conn does.
-/
import PleRowServer.Daemon.Handling

namespace PleRowServer.Daemon

open Base

variable {s : Server} {b : Buffers} {fuel : Nat} {h : Header}

/-- The loop has not ended. -/
def Next.Waits (nx : Next) : Prop := nx = .stop .waiting

/-- Whoever is still reading after so many rounds has made as many reads.
-/
theorem readLoop_spends {n : Nat} : ∀ (fuel : Nat) (got : List UInt8),
    Prog.Spends fuel (· = Rd.spent) (readLoop n fuel got) := by
  intro fuel
  induction fuel with
  | zero => exact fun _ => Prog.spends_zero
  | succ fuel ih =>
      intro got
      unfold readLoop
      split
      case isTrue => exact Prog.spends_pure (by simp)
      case isFalse =>
        refine Prog.Spends.act fun r => ?_
        cases r with
        | data bs _ _ => exact ih _
        | eintr => exact ih _
        | eof => exact Prog.spends_pure (by split <;> simp)
        | eagain => exact Prog.spends_pure (by split <;> simp)
        | error => exact Prog.spends_pure (by simp)

/-- Whoever is still writing after so many rounds has made as many writes.
-/
theorem writeLoop_spends : ∀ (fuel : Nat) (data : List UInt8),
    Prog.Spends fuel (· = Io.spent) (writeLoop fuel data) := by
  intro fuel
  induction fuel with
  | zero => exact fun _ => Prog.spends_zero
  | succ fuel ih =>
      intro data
      unfold writeLoop
      split
      case isTrue => exact Prog.spends_pure (by simp)
      case isFalse =>
        refine Prog.Spends.act fun r => ?_
        cases r with
        | wrote k _ _ => exact ih _
        | eintr => exact ih _
        | zero => exact Prog.spends_pure (by simp)
        | error => exact Prog.spends_pure (by simp)

/-- A response still being sent has taken as many writes as rounds. -/
theorem sendResponse_spends (buf : List UInt8) (id st cnt : UInt32)
    (body : Nat) : Prog.Spends fuel (fun x => x.2 = Io.spent)
      (sendResponse fuel buf id st cnt body) := by
  unfold sendResponse
  exact (writeLoop_spends fuel _).bind fun _ _ _ hx => Prog.spends_pure hx

/-- A chunk of a drain is at least one byte, so its read is at least one
call. -/
theorem Reads.calls {n : Nat} {tr : Run} {bs : List UInt8}
    (hr : Reads n [] tr (.ok bs)) (hn : 0 < n) : 0 < tr.length := by
  cases tr with
  | nil =>
      cases hr with
      | ok hlen _ =>
          rw [readBytes_nil, List.append_nil, List.length_nil] at hlen
          omega
  | cons d tr => exact Nat.succ_pos _

/-- A drain that is not through has made as many reads as rounds. -/
theorem drainLoop_spends : ∀ (rounds bytes : Nat) (scratch : List UInt8),
    rounds ≤ fuel → 0 < scratch.length →
    Prog.Spends rounds (fun x => x.2 = Io.spent)
      (drainLoop fuel rounds bytes scratch) := by
  intro rounds
  induction rounds with
  | zero => exact fun _ _ _ _ => Prog.spends_zero
  | succ rounds ih =>
      intro bytes scratch hle hpos
      unfold drainLoop
      split
      case isTrue => exact Prog.spends_pure (by simp)
      case isFalse hz =>
        set n := if bytes < scratch.length then bytes else scratch.length
          with hn
        have hn' : 0 < n ∧ n ≤ scratch.length := by
          rw [hn]
          split <;> omega
        refine ((readLoop_spends fuel []).le hle).bind fun tr x hd hx => ?_
        obtain ⟨hr, -⟩ := readFull_reads hd
        cases x with
        | ok bs =>
            have hlen : bs.length ≤ scratch.length := by
              cases hr with
              | ok hlen _ => exact hlen.le.trans hn'.2
            have hcalls := hr.calls hn'.1
            refine (ih _ _ (by omega) ?_).le (by omega)
            rw [length_splice (by omega)]
            exact hpos
        | spent => exact absurd rfl hx
        | eof => exact Prog.spends_pure (by simp)
        | timeout => exact Prog.spends_pure (by simp)
        | err => exact Prog.spends_pure (by simp)

/-- A request that still waits with its answer made out has spent its
rounds on sending it. -/
theorem respond_spends (b : Buffers) (id st cnt : UInt32) (body : Nat) :
    Prog.Spends fuel Next.Waits (respond fuel b id st cnt body) := by
  unfold respond
  refine (sendResponse_spends b.resp id st cnt body).bind fun _ x _ hx => ?_
  obtain ⟨resp, io⟩ := x
  cases io with
  | ok => exact Prog.spends_pure (by simp [Next.Waits])
  | err => exact Prog.spends_pure (by simp [Next.Waits])
  | spent => exact absurd rfl hx

/-- A request refused for good that still waits has spent its rounds on
sending that. -/
theorem part_spends (b : Buffers) (id st : UInt32) {why : Stop}
    (hwhy : why ≠ .waiting) :
    Prog.Spends fuel Next.Waits (part fuel b id st why) := by
  unfold part
  refine (sendResponse_spends b.resp id st 0 0).bind fun _ x _ hx => ?_
  obtain ⟨resp, io⟩ := x
  cases io with
  | ok => exact Prog.spends_pure (by simpa [Next.Waits] using hwhy)
  | err => exact Prog.spends_pure (by simpa [Next.Waits] using hwhy)
  | spent => exact absurd rfl hx

/-- Once the ids are read, or not, no round is left to wait in. -/
theorem idsRead_spends (b : Buffers) (id cnt : UInt32) (r : Rd) (n : Nat) :
    n ≤ fuel → r ≠ .spent → Prog.Spends n Next.Waits (match r with
      | .spent => pure (.stop .waiting)
      | .ok bs =>
          let ids := splice b.ids 0 bs
          match gatherRows s ids cnt b.resp (UInt64.ofNat HDR_BYTES) with
          | .error f => pure (.stop (.fault f))
          | .ok (st, resp) =>
              if st ≠ ST_OK then respond fuel ⟨resp, ids⟩ id st 0 0
              else
                respond fuel ⟨resp, ids⟩ id ST_OK cnt
                  (cnt.toNat * ROW_BYTES)
      | _ => pure (.stop .cut) : Serving Next) := by
  intro hle hr
  cases r with
  | ok bs =>
      dsimp only
      split
      · exact Prog.spends_pure (by simp [Next.Waits])
      · split
        · exact (respond_spends _ _ _ _ _).le hle
        · exact (respond_spends _ _ _ _ _).le hle
  | spent => exact absurd rfl hr
  | eof => exact Prog.spends_pure (by simp [Next.Waits])
  | timeout => exact Prog.spends_pure (by simp [Next.Waits])
  | err => exact Prog.spends_pure (by simp [Next.Waits])

/-- A GATHER that still waits has made as many calls as it had rounds. -/
theorem serveGather_spends (b : Buffers) (id cnt : UInt32) :
    Prog.Spends fuel Next.Waits (serveGather s fuel b id cnt) := by
  unfold serveGather
  dsimp only
  split
  · exact (readLoop_spends fuel []).bind fun tr r _ hr =>
      idsRead_spends b id cnt r _ (Nat.sub_le _ _) hr
  · exact idsRead_spends b id cnt (.ok []) fuel le_rfl (by simp)

/-- A request without ids that still waits has made as many calls. -/
theorem serveBare_spends (b : Buffers) :
    Prog.Spends fuel Next.Waits (serveBare s fuel b h) := by
  have hquiet : ∀ {β : Type} {bad : β → Prop} {n : Nat} {a : Sock}
      {f : a.Reply → Serving β}, (∀ r, Prog.Spends n bad (f r)) →
      Prog.Spends n bad (Prog.perform a >>= f) :=
    fun hf => (Prog.Spends.act hf).le (Nat.le_succ _)
  unfold serveBare
  split
  · exact respond_spends _ _ _ _ _
  split
  · exact hquiet fun _ => hquiet fun _ => respond_spends _ _ _ _ _
  split
  · refine hquiet fun r => ?_
    obtain ⟨rst, rep⟩ := r
    dsimp only
    split
    · exact respond_spends _ _ _ _ _
    · exact respond_spends _ _ _ _ _
  · exact respond_spends _ _ _ _ _

/-- Once the body of another op is drained, no round is left to wait in.
-/
theorem drained_spends (b : Buffers) (x : List UInt8 × Io) (n : Nat) :
    n ≤ fuel → x.2 ≠ .spent → Prog.Spends n Next.Waits (match x with
      | (_, .spent) => pure (.stop .waiting)
      | (ids, .err) =>
          part fuel { b with ids := ids } h.reqId ST_TOO_MANY .oversize
      | (ids, .ok) =>
          if h.op = OP_GATHER then
            respond fuel { b with ids := ids } h.reqId ST_TOO_MANY 0 0
          else serveBare s fuel { b with ids := ids } h : Serving Next) := by
  intro hle hx
  obtain ⟨ids, io⟩ := x
  cases io with
  | ok =>
      dsimp only
      split
      · exact (respond_spends _ _ _ _ _).le hle
      · exact (serveBare_spends _).le hle
  | err => exact (part_spends _ _ _ (by simp)).le hle
  | spent => exact absurd rfl hx

/-- Whatever its header says, a request that still waits has made as many
calls as it had rounds. -/
theorem serveHeader_spends (hb : 0 < b.ids.length) :
    Prog.Spends fuel Next.Waits (serveHeader s fuel b h) := by
  unfold serveHeader
  split
  · exact part_spends _ _ _ (by simp)
  refine (Prog.Spends.act fun _ => ?_).le (Nat.le_succ _)
  split
  · exact serveGather_spends _ _ _
  dsimp only
  split
  · have hdrain : Prog.Spends fuel (fun x => x.2 = Io.spent)
        (drain fuel b.ids h.idBytes) := by
      unfold drain
      split
      · exact Prog.spends_pure (by simp)
      · exact drainLoop_spends fuel _ _ le_rfl hb
    exact hdrain.bind fun tr x _ hx => drained_spends b x _ (Nat.sub_le _ _) hx
  · exact drained_spends b (b.ids, .ok) fuel le_rfl (by simp)

/-- The loop of `serve_conn`, still waiting, has made a call a round. -/
theorem serveLoop_spends (hr : Ranged s) : ∀ (rounds : Nat) (b : Buffers),
    rounds ≤ fuel → Sized s b →
    Prog.Spends rounds (· = Stop.waiting) (serveLoop s fuel rounds b) := by
  have hids : ∀ {b}, Sized s b → 0 < b.ids.length := by
    intro b hb
    rw [hb.ids, hr.idsSize]
    have := hr.maxRows.1
    omega
  intro rounds
  induction rounds with
  | zero => exact fun _ _ _ => Prog.spends_zero
  | succ rounds ih =>
      intro b hle hb
      unfold serveLoop
      refine ((readLoop_spends fuel []).le hle).bind fun tr x hd hx => ?_
      obtain ⟨hreads, -⟩ := readFull_reads hd
      -- a round begins with a read
      have hcalls : 0 < tr.length := by
        rcases readFull_starts (by decide) hd with ⟨-, rfl⟩ | ⟨d, t, rfl, -⟩
        · exact absurd rfl hx
        · exact Nat.succ_pos _
      cases x with
      | eof => exact Prog.spends_pure (by simp)
      | timeout => exact (ih b (by omega) hb).le (by omega)
      | err => exact Prog.spends_pure (by simp)
      | spent => exact absurd rfl hx
      | ok hdr =>
          have hlen : hdr.length = HDR_BYTES := by
            cases hreads with
            | ok hlen _ => exact hlen
          refine ((serveHeader_spends (hids hb)).le (by omega)).bind
            fun tr' nx hd' hnx => ?_
          have hh := serveHeader_handles hr hb (parseHeader_parsed hlen) hd'
          cases hh with
          | go hresp hids' _ _ _ => exact (ih _ (by omega) ⟨hresp, hids'⟩).le (by omega)
          | stop _ _ =>
              exact Prog.spends_pure fun hw => hnx (congrArg Next.stop hw)

/-- A run that is waiting has made as many calls as there was fuel. -/
theorem serveConn_spends (hr : Ranged s) (hb : Sized s b) :
    Prog.Spends fuel (· = Stop.waiting) (serveConn s fuel (some b)) :=
  serveLoop_spends hr fuel b le_rfl hb

end PleRowServer.Daemon
