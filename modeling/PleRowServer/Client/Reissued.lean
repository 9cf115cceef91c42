/-
The retry discipline after an interrupt.

What `Retries` promises of a gather it keeps on any table that is fit for
it, whatever was interrupted before. On one that is not, `answered` may
stand from an earlier gather. The gather clears it peer by peer, as it
reconnects them, so a fault of the first peer's reconnect is handled with
the flag of the others standing: they count as answered, and are neither
asked nor dropped (`gatherCpu_reissued_stale`).
-/
import PleRowServer.Client.Discipline
import PleRowServer.Client.Interrupted

namespace PleRowServer.Client

open Base Wire
open RemoteTable (Config initial)

variable {env : Env} {w w₀ w' : World env} {cfg : Config} {ids : List Int}

/-- After calls that each found the table as they need it, a gather that
does keeps to the retry discipline, however it and they end; and whoever
had not answered when a fault was handled is dropped. -/
theorem gatherCpu_reissued {o : Outcome} (hc : Constructed env cfg w₀)
    (hu : Careful w₀.ranges w₀ w) (hf : w.table.failed = none)
    (hfit : Fit w₀.ranges ids w) (hfew : 6 * w.table.peers.length ≤ 2 ^ 32)
    (h : (Op.gatherCpu ids).Takes w o w') :
    ids = [] ∧ w'.tr = w.tr ∨ ∃ evs, w'.tr = w.tr ++ .call :: evs ∧
      Retries w₀.ranges w.table.peers.length o evs ∧
      (∀ i, ((gathersTo i evs).map Prod.snd).Nodup) ∧
      (o.Ordinary → LetGo w₀.ranges (w.tr ++ [.call]) evs) := by
  refine (hfit.reissues (hu.left hc).sound hf h).imp_right ?_
  rintro ⟨evs, htr, hr, hlet⟩
  exact ⟨evs, htr, hr, hr.ids hfew, hlet⟩

/-- A gather that returns, as a call. -/
theorem Op.takes_gatherCpu
    (h : Returns (RemoteTable.gatherCpu ids) w = true) :
    (Op.gatherCpu ids).Takes w .returned
      (returned (RemoteTable.gatherCpu ids) w) := by
  obtain ⟨x, hx⟩ := Returns.run h
  show (RemoteTable.gatherCpu ids >>= fun _ => pure ()) w = _
  simp only [bind, EStateM.bind, hx]
  rfl

/-- Fit for it is the table whose first peer the interrupt left without a
connection. -/
theorem gatherCpu_reissued_stranded :
    ∃ w', (Op.gatherCpu [0]).Takes stranded .returned w' ∧
      ([0] = ([] : List Int) ∧ w'.tr = stranded.tr ∨
        ∃ evs, w'.tr = stranded.tr ++ .call :: evs ∧
          Retries strandable.ranges stranded.table.peers.length .returned
            evs ∧
          (∀ i, ((gathersTo i evs).map Prod.snd).Nodup) ∧
          (Outcome.returned.Ordinary →
            LetGo strandable.ranges (stranded.tr ++ [.call]) evs)) := by
  obtain ⟨hf, hret, hidle, hone, -⟩ := stranded_again
  have hcare := (stranded_shunning.careful strandable_constructed).1
  have hfit : Fit strandable.ranges [0] stranded :=
    ⟨hidle, List.pairwise_iff_getElem.mpr fun i j hi hj hij => by omega⟩
  have hpeers : stranded.table.peers.length = 2 := by decide +kernel
  have htakes := Op.takes_gatherCpu hret
  exact ⟨_, htakes, gatherCpu_reissued strandable_constructed hcare hf hfit
    (by rw [hpeers]; decide) htakes⟩

/-- What the other gather enters in the history. -/
def staleEntries : Trace := stale.tr.drop (stranded.tr.length + 1)

/-- The entry is no handled fault. -/
def Ev.calm : Ev → Bool
  | .caught _ _ => false
  | _ => true

/-- Peer 1 has a connection when the first fault is handled, which is one
of an attempt it belongs to. -/
theorem stale_runs :
    1 ∈ (Op.gatherCpu [0, 1, 1]).asks strandable.ranges stranded ∧
      stale.tr = stranded.tr ++ .call :: staleEntries ∧
      (staleEntries.dropWhile Ev.calm).head?.any (fun e =>
        match e with
        | .caught _ todo => decide (1 ∈ todo)
        | _ => false) = true ∧
      ((line (strandable.ranges 1) 1 (stranded.tr ++ [.call] ++
        staleEntries.takeWhile Ev.calm)).conn.map fun c => c.peer)
        = some 1 := by
  decide +kernel

/-- A gather from both peers is over although the second was never asked,
and its connection is still open: the fault was the first one's. -/
theorem gatherCpu_reissued_stale :
    Constructed stranding pairConfig strandable ∧
      (Op.gatherCpu [0, 1]).Takes strandable .returned unstranded ∧
      (Op.gatherCpu [0]).Takes unstranded (.raised .interrupted) stranded ∧
      stranded.table.failed = none ∧
      ∃ w' evs, (Op.gatherCpu [0, 1, 1]).Takes stranded .returned w' ∧
        w'.tr = stranded.tr ++ .call :: evs ∧
        1 ∈ (Op.gatherCpu [0, 1, 1]).asks strandable.ranges stranded ∧
        ¬ LetGo strandable.ranges (stranded.tr ++ [.call]) evs := by
  obtain ⟨-, hboth, -, hint, -⟩ := stranded_runs
  obtain ⟨hf, -, -, -, hret, -, -, -, hquiet⟩ := stranded_again
  obtain ⟨hasked, htr, hcaught, hsocket⟩ := stale_runs
  have hfirst := Op.takes_ends (.gatherCpu [0, 1]) strandable
  have hsecond := Op.takes_ends (.gatherCpu [0]) unstranded
  rw [hboth] at hfirst
  rw [hint] at hsecond
  refine ⟨strandable_constructed, hfirst, hsecond, hf, stale, staleEntries,
    Op.takes_gatherCpu hret, htr, hasked, fun hlet => ?_⟩
  -- nothing passes on a connection of the second peer
  rw [htr, List.drop_left] at hquiet
  have hquiet' : ∀ e ∈ staleEntries, ∀ c, e.conn = some c → c.peer ≠ 1 := by
    intro e he c hc hpeer
    refine hquiet e (List.mem_cons_of_mem _ he) ?_
    rw [hc, Option.map_some, hpeer]
  have hsplit : staleEntries = staleEntries.takeWhile Ev.calm
      ++ staleEntries.dropWhile Ev.calm :=
    List.takeWhile_append_dropWhile.symm
  obtain ⟨c, hconn, hpeer⟩ := Option.map_eq_some_iff.mp hsocket
  cases hdrop : staleEntries.dropWhile Ev.calm with
  | nil =>
      rw [hdrop] at hcaught
      cases hcaught
  | cons e b =>
      rw [hdrop] at hcaught hsplit
      simp only [List.head?_cons, Option.any_some] at hcaught
      split at hcaught
      case h_2 => cases hcaught
      case h_1 x todo =>
        rcases hlet _ b x todo hsplit 1 (of_decide_eq_true hcaught) c hconn
          with ⟨a₁, a₂, req, ha, -⟩ | ⟨f, hclose⟩
        · refine hquiet' (.send c req .all) ?_ c rfl hpeer
          rw [hsplit, ha]
          simp
        · refine hquiet' (.close c f) ?_ c rfl hpeer
          rw [hsplit]
          simp [hclose]

end PleRowServer.Client
