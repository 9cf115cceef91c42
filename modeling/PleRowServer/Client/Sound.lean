/-
What holds of a built table between its calls. `Sound` is kept by every
call, whichever way it ends; `Settled` is what a usable table adds to it
for each peer, and what a call that leaves some peer otherwise has to
say so for.
-/
import PleRowServer.Client.StageSpec

namespace PleRowServer.Client

open Base Wire

variable {env : Env} {geo : PeerId → Geometry} {w w' w'' : World env}
  {T : ℚ} {ids : List Int} {i j : PeerId} {e : Exn} {S : Set PeerId}
  {evs : Trace} {k : Nat}

-- ============================================================ invariants

/-- The attributes of a table that no call reassigns. -/
def RemoteTable.setup (t : RemoteTable) : RemoteTable :=
  { t with
    reqId := 0, failed := none, staging := none, stagingNp := none, sel := [] }

/-- The invariant of a built table: its peers tile it and serve the
ranges it recorded, every peer's socket is its line's connection, and
the line is good. -/
structure Sound (geo : PeerId → Geometry) (T : ℚ) (w : World env) :
    Prop where
  nodup : w.table.peers.Nodup
  tiled : Tiled geo w.table.peers 0 w.table.rowsTotal
  sel : w.table.sel.length = w.table.peers.length
  timeout : w.table.timeout = T
  nonneg : 0 ≤ T
  geometry : ∀ i ∈ w.table.peers, (w.heap i).geometry = geo i
  rowBytes : ∀ i ∈ w.table.peers, (geo i).rowBytes = w.table.rowBytes
  linked : ∀ i, Linked geo T i w
  roomy : ∀ i, (w.heap i).Roomy
  deadline : ∀ i, (w.heap i).deadline = none
  handle : w.table.stagingNp = w.table.staging

/-- A peer ready for the next request. -/
structure Settled (geo : PeerId → Geometry) (i : PeerId) (w : World env) :
    Prop where
  sock : (w.heap i).sock ≠ none
  idle : (w.line geo i).phase = .idle
  pending : (w.heap i).pending = none

/-- Every peer is. -/
def Synced (geo : PeerId → Geometry) (w : World env) : Prop :=
  ∀ i ∈ w.table.peers, Settled geo i w

/-- A peer is settled by its fields and by its line's phase alone. -/
theorem Settled.congr (h : Settled geo i w) (hh : w'.heap i = w.heap i)
    (hl : (w'.line geo i).phase = (w.line geo i).phase) :
    Settled geo i w' :=
  ⟨by rw [hh]; exact h.sock, by rw [hl]; exact h.idle, by
    rw [hh]; exact h.pending⟩

/-- A peer whose answer is in is settled. -/
theorem Answered.settled {s : Share} (h : Answered geo T k ids s w) :
    Settled geo s.1 w := by
  have hsock := h.linked.sock
  have hp := h.pending
  obtain ⟨c, l, req, ans, ho, -, -, -, hl, -⟩ := h.line
  refine ⟨?_, by rw [hl], hp⟩
  rw [hsock, hl, ho.conn]
  simp

section Setup

/-- The setup has the peers. -/
theorem setup_peers (h : w'.table.setup = w.table.setup) :
    w'.table.peers = w.table.peers := congrArg (·.peers) h

/-- The setup has the number of rows. -/
theorem setup_rowsTotal (h : w'.table.setup = w.table.setup) :
    w'.table.rowsTotal = w.table.rowsTotal := congrArg (·.rowsTotal) h

/-- The setup has the size of a row. -/
theorem setup_rowBytes (h : w'.table.setup = w.table.setup) :
    w'.table.rowBytes = w.table.rowBytes := congrArg (·.rowBytes) h

/-- The setup has the timeout. -/
theorem setup_timeout (h : w'.table.setup = w.table.setup) :
    w'.table.timeout = w.table.timeout := congrArg (·.timeout) h

/-- The setup has the bound of a share. -/
theorem setup_maxRows (h : w'.table.setup = w.table.setup) :
    w'.table.maxRows = w.table.maxRows := congrArg (·.maxRows) h

/-- The setup has the time a gather is given. -/
theorem setup_gatherDeadline (h : w'.table.setup = w.table.setup) :
    w'.table.gatherDeadline = w.table.gatherDeadline :=
  congrArg (·.gatherDeadline) h

/-- Work on the peers leaves the setup. -/
theorem Step.setup (h : Step S w w') : w'.table.setup = w.table.setup := by
  rw [h.table]
  rfl

/-- Work on the peers that fails leaves the setup. -/
theorem Fail.setup (h : Fail S e w w') :
    w'.table.setup = w.table.setup := by
  rw [h.table]
  rfl

end Setup

/-- A call keeps the invariant if it keeps what its peers do. -/
theorem Sound.keep (h : Sound geo T w)
    (hsetup : w'.table.setup = w.table.setup)
    (hsel : w'.table.sel.length = w.table.sel.length)
    (hhandle : w'.table.stagingNp = w'.table.staging)
    (hgeo : ∀ i, (w'.heap i).geometry = (w.heap i).geometry)
    (hlink : ∀ i, Linked geo T i w') (hroomy : ∀ i, (w'.heap i).Roomy)
    (hdl : ∀ i, (w'.heap i).deadline = none) : Sound geo T w' := by
  have hp := setup_peers hsetup
  refine ⟨?_, ?_, ?_, ?_, h.nonneg, ?_, ?_, hlink, hroomy, hdl, hhandle⟩
  · rw [hp]; exact h.nodup
  · rw [hp, setup_rowsTotal hsetup]; exact h.tiled
  · rw [hp, hsel]; exact h.sel
  · rw [setup_timeout hsetup]; exact h.timeout
  · intro i hi; rw [hgeo]; exact h.geometry i (hp ▸ hi)
  · intro i hi; rw [setup_rowBytes hsetup]; exact h.rowBytes i (hp ▸ hi)

/-- Work on peers that leaves each of them linked keeps the invariant. -/
theorem Sound.moves (h : Sound geo T w) (hm : Moves S evs w w')
    (hlink : ∀ i ∈ S, Linked geo T i w') : Sound geo T w' := by
  have ht := hm.table
  refine h.keep (by rw [ht]; rfl) (by rw [ht]) ?_
    (fun i => (hm.kept i).geometry) (fun i => ?_)
    (fun i => (h.roomy i).kept (hm.kept i))
    (fun i => (hm.kept i).deadline.trans (h.deadline i))
  · rw [ht]; exact h.handle
  · by_cases hi : i ∈ S
    · exact hlink i hi
    · exact (h.linked i).congr (hm.heap i hi) (hm.line_eq geo hi)

-- ========================================================= a call begins

/-- The state a public call starts its work in. -/
def World.called (w : World env) : World env :=
  w.push .call (env.produces_call w.tr)

/-- A call begins a new page of the line. -/
@[simp] theorem line_called (w : World env) (i : PeerId) :
    w.called.line geo i = (w.line geo i).onCall := by
  simp [World.line, World.called, lineStep]

/-- The start of a call leaves a peer linked. -/
theorem Linked.called (h : Linked geo T i w) : Linked geo T i w.called := by
  refine ⟨?_, ?_, h.timeout, ?_⟩ <;> rw [line_called]
  · exact h.sock
  · exact h.good
  · exact h.closed

/-- The start of a call leaves a table sound. -/
theorem Sound.called (h : Sound geo T w) : Sound geo T w.called :=
  h.keep rfl rfl h.handle (fun _ => rfl) (fun i => (h.linked i).called)
    h.roomy h.deadline

/-- The start of a call leaves a peer settled. -/
theorem Settled.called (h : Settled geo i w) : Settled geo i w.called :=
  h.congr rfl (by rw [line_called]; rfl)

/-- What one call does outside the peers `S` it works on: `evs` follows
the mark of the call, and the setup and the other peers stay. -/
structure Called (S : Set PeerId) (evs : Trace) (w w' : World env) :
    Prop where
  tr : w'.tr = w.tr ++ .call :: evs
  of : ∀ e ∈ evs, e.Of S
  heap : ∀ j ∉ S, w'.heap j = w.heap j
  setup : w'.table.setup = w.table.setup
  ids : Drawing w.table.reqId (drawn evs) w'.table.reqId

/-- A call that has done nothing yet. -/
theorem Called.refl (w : World env) (S : Set PeerId) :
    Called S [] w w.called :=
  ⟨rfl, by simp, fun _ _ => rfl, rfl, rfl⟩

/-- A call that goes on does more. -/
theorem Called.moves {evs' : Trace} (h : Called S evs w w')
    (hm : Moves S evs' w' w'') : Called S (evs ++ evs') w w'' where
  tr := by rw [hm.tr, h.tr, List.append_assoc, List.cons_append]
  of e he := (List.mem_append.mp he).elim (h.of e) (hm.of e)
  heap j hj := (hm.heap j hj).trans (h.heap j hj)
  setup := by rw [hm.table]; exact h.setup
  ids := by rw [drawn_append]; exact h.ids.append hm.ids

/-- Work that shows in no history and draws no request id. -/
theorem Called.quiet (h : Called S evs w w') (ht : w''.tr = w'.tr)
    (hh : ∀ j ∉ S, w''.heap j = w'.heap j)
    (hsetup : w''.table.setup = w'.table.setup)
    (hid : w''.table.reqId = w'.table.reqId) : Called S evs w w'' :=
  ⟨ht.trans h.tr, h.of, fun j hj => (hh j hj).trans (h.heap j hj),
    hsetup.trans h.setup, by rw [hid]; exact h.ids⟩

/-- A call that raises has made one entry more. -/
theorem Called.raise (h : Called S evs w w') (e : Exn) (he) :
    Called S (evs ++ [.raised e]) w (w'.push (.raised e) he) :=
  h.moves (.push he (by intro c hc; cases hc) rfl)

/-- A history that follows the mark of a call. -/
theorem Called.after (h : Called S evs w w') : w'.tr = w.called.tr ++ evs := by
  rw [h.tr]
  simp [World.called]

/-- A peer no call touched stands where it stood. -/
theorem Called.phase (h : Called S evs w w') (hi : i ∉ S) :
    (w'.line geo i).phase = (w.line geo i).phase := by
  have : w'.line geo i = w.called.line geo i := by
    unfold World.line
    rw [h.after, line_of_other hi w.called.tr h.of]
  rw [this, line_called]
  rfl

/-- A peer no call touched is as settled as it was. -/
theorem Called.settled (h : Called S evs w w') (hi : i ∉ S)
    (hs : Settled geo i w) : Settled geo i w' :=
  hs.congr (h.heap i hi) (h.phase hi)

end PleRowServer.Client
