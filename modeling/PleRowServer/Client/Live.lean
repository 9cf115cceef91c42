/-
Gathers end to end: over servers of a deployment a gather that returns
has the table's rows at the ids it was given, and one of a usable table,
for ids and shares it may be asked for, has no reason to raise but a
fault.

The first half is `Gathered.row`. For the second, everything an
exchange can fail for is a fault or a header that is no success
(`Trouble`), and a header is read in answer to a request the client sent
in this call (`Called.asks`). What it sends is known (`Permits`), and
none of it is a request that a server with its buffers refuses.
-/
import PleRowServer.Client.Accepted
import PleRowServer.Client.Rows
import PleRowServer.Client.Sent

namespace PleRowServer.Client

open Base Wire Daemon
open RemoteTable (Config initial)

variable {env : Env} {geo : PeerId → Geometry} {g : Geometry}
  {w w₀ v w' : World env} {T : ℚ} {cfg : Config} {i : PeerId} {e : Exn}
  {ids : List Int} {n : Nat} {servers : PeerId → Server} {s : Server}
  {table : Nat → List UInt8} {tr : Trace} {l : Line} {c : ConnId}
  {req got : List UInt8}

-- ====================================================== whose rows

section Setup

variable (hc : Constructed env cfg w₀)
  (hs : w.table.setup = w₀.table.setup)
include hc hs

/-- The ranges a deployment was recorded with. -/
theorem Constructed.behind {d : Deployment table cfg.peers.length}
    (hd : d.Behind env) (hi : i ∈ w.table.peers) :
    i < cfg.peers.length ∧ w₀.ranges i = rangeOf (d.server i) := by
  obtain ⟨-, -, -, -, ps, r, hperm, htable⟩ := hc.spec
  rw [setup_peers hs] at hi
  refine ⟨?_, hc.recorded hd hi⟩
  rw [htable] at hi
  exact List.mem_range.mp (hperm.mem_iff.mp hi)

/-- The rows the table has. -/
theorem Constructed.rowsTotal : w.table.rowsTotal = cfg.rowsTotal := by
  obtain ⟨-, -, -, -, ps, r, -, htable⟩ := hc.spec
  rw [setup_rowsTotal hs, htable]
  rfl

end Setup

theorem Used.recorded {d : Deployment table cfg.peers.length}
    (hc : Constructed env cfg w₀) (hd : d.Behind env)
    (hu : Used Outcome.Ordinary w₀ w) (hi : i ∈ w.table.peers) :
    i < cfg.peers.length ∧ w₀.ranges i = rangeOf (d.server i) :=
  hc.behind (hu.good hc).2 hd hi

theorem Used.rowsTotal (hc : Constructed env cfg w₀)
    (hu : Used Outcome.Ordinary w₀ w) :
    w.table.rowsTotal = cfg.rowsTotal := hc.rowsTotal (hu.good hc).2

theorem Used.maxRows (hc : Constructed env cfg w₀)
    (hu : Used Outcome.Ordinary w₀ w) : w.table.maxRows = cfg.maxRows := by
  obtain ⟨-, hsetup⟩ := hu.good hc
  obtain ⟨-, -, -, -, ps, r, -, htable⟩ := hc.spec
  rw [setup_maxRows hsetup, htable]
  rfl

/-- Over a deployment, a gather that returned shows the table's rows in
a view of the staging it ran with. -/
theorem Gathered.read {d : Deployment table cfg.peers.length}
    (hc : Constructed env cfg w₀) (hd : d.Behind env)
    (hs : Sound w₀.ranges cfg.timeout w)
    (hset : w.table.setup = w₀.table.setup) {out : View}
    (hstag : w.table.staging = some out.buf) (hn : out.n = ids.length)
    (h : Gathered w₀.ranges cfg.timeout ids w w') :
    out.read w' = ids.map (fun id => table id.toNat) ∧
      ∀ id ∈ ids, 0 ≤ id ∧ id < cfg.rowsTotal := by
  have hrow : ∀ p < ids.length, 0 ≤ ids.getD p 0 ∧
      ids.getD p 0 < cfg.rowsTotal ∧
      (w'.bufs out.buf).row p = table (ids.getD p 0).toNat := by
    intro p hp
    obtain ⟨hlo, hhi, i, hi, howns, hrow⟩ := h.row hs (hd _ w'.hist.ok)
      d.ranged (fun i hi => (hc.behind hset hd hi).2) hstag hp
    rw [hc.rowsTotal hset] at hhi
    refine ⟨hlo, hhi, ?_⟩
    rw [hrow]
    exact d.holds i (hc.behind hset hd hi).1 _ howns
  have hgetD : ∀ (p : Nat) (hp : p < ids.length), ids.getD p 0 = ids[p] :=
    fun p hp => by rw [List.getD, List.getElem?_eq_getElem hp]; rfl
  refine ⟨?_, fun id hid => ?_⟩
  · unfold View.read
    refine List.ext_getElem (by simp [hn]) fun p hp hp' => ?_
    have hlt : p < ids.length := by rwa [List.length_map] at hp'
    have hr := (hrow p hlt).2.2
    rw [hgetD p hlt] at hr
    rw [List.getElem_map, List.getElem_range, List.getElem_map, hr]
  · obtain ⟨p, hp, rfl⟩ := List.mem_iff_getElem.mp hid
    obtain ⟨hlo, hhi, -⟩ := hrow p hp
    rw [hgetD p hp] at hlo hhi
    exact ⟨hlo, hhi⟩

-- ================================================== requests that succeed

/-- The header of a success. -/
theorem headerOk_answer {k : Nat} (hk : k = wantRows req) (hlt : k < 2 ^ 32)
    (body : List UInt8) :
    headerOk req (answerHeader (idOf req) 0 k ++ body) = true := by
  have hid : idOf req < 2 ^ 32 := natAt_lt req 8 4
  have hlen := length_answerHeader hid (by decide : 0 < 2 ^ 32) hlt
  obtain ⟨hm, he, hs, hr⟩ :=
    answerHeader_fields hid (by decide : 0 < 2 ^ 32) hlt body
  refine headerOk_iff.mpr ⟨?_, hm, he, hs, hr.trans hk⟩
  rw [List.length_append, hlen]
  exact Nat.le_add_right _ _

/-- A request the server keeps the connection for and answers with a
success, whatever the moment. -/
structure Served (s : Server) (req : List UInt8) : Prop where
  known : Known req
  kept : ¬ (Daemon.Dropped s req ∧ 0 < countOf req)
  success : ∀ f, headerOk req (answerTo s f req) = true

/-- A STAT is. -/
theorem served_stat (hk : Known req) (hop : opOf req = Wire.OP_STAT)
    (hn : countOf req = 0) : Served s req := by
  refine ⟨hk, fun h => by omega, fun f => ?_⟩
  have hans : answerTo s f req
      = answerHeader (idOf req) 0 0 ++ statBody s f.pages f.served := by
    unfold answerTo
    rw [hop]
    rfl
  rw [hans]
  refine headerOk_answer ?_ (by decide) _
  rw [wantRows, hop]
  rfl

/-- A GATHER is served that asks for a share of the server's range, of no
more rows than it takes. -/
theorem served_gather {sh : Share} (hr : Ranged s) (hk : Known req)
    (h : Request ids sh req) (hown : sh.2 = (rangeOf s).owned ids)
    (hmax : sh.2.length ≤ s.maxRows.toNat) : Served s req := by
  have hop := h.asks.op
  have hcount := h.asks.count
  refine ⟨hk, fun hn => ?_, fun f => ?_⟩
  · rcases hn.1 with hne | hlt
    · exact hne hop
    · omega
  · have howns : ∀ j < countOf req, Owns s (rowIdOf req j) := by
      intro j hj
      rw [hcount] at hj
      have hmem : sh.2[j] ∈ (rangeOf s).owned ids := by
        rw [← hown]
        exact List.getElem_mem hj
      obtain ⟨-, hid, hsmall⟩ := owned_owns hr hmem
      rw [h.rowId hj, hsmall]
      exact hid
    rw [answerTo_gather s f hop, if_neg (by omega), if_pos howns]
    have hlt : countOf req < 2 ^ 32 := natAt_lt req 12 4
    refine headerOk_answer ?_ hlt _
    rw [wantRows, if_pos hop]

/-- What a client reads in answer to such a request, of a server that has
its buffers, begins with the header of a success. -/
theorem Supplied.header (h : Supplied servers tr)
    (hr : ∀ i, Ranged (servers i)) (ht : l.Traced g i tr)
    (hrb : g.rowBytes = ROW_BYTES) (hc : l.conn = some c)
    (hp : l.phase = .asked req got) (hs : Served (servers i) req)
    (hgot : HEADER ≤ got.length) : headerOk req got = true := by
  obtain ⟨out, hout, hpre⟩ := h.replies hr c
  obtain ⟨hwhole, hsent, hread⟩ := ht.asking c req got hc hp
  rw [hsent, (ht.conn c hc).1] at hout
  rw [hread] at hpre
  have hans : ∀ r a, Answers (servers i) r a → WholeAnswer ROW_BYTES r a :=
    fun _ _ ha => ha.whole (hr i)
  obtain ⟨-, tail, rfl, htail⟩ := Replies.settled_append hans
    (fun _ _ hf => hf.1) l.done (fun x hx => hrb ▸ ht.settled x hx) hout
    ((List.prefix_append _ _).trans hpre)
  have hgot' : got <+: tail := (List.prefix_append_right_inj _).mp hpre
  obtain ⟨ans, ⟨-, f, rfl⟩, heq⟩ | ⟨ans, hparts⟩ :=
    htail.header hans hwhole hgot' hgot
  · rw [heq]
    exact hs.success f
  · rcases hparts.2.2 with hunknown | hdrop
    · exact absurd hs.known hunknown
    · exact absurd hdrop hs.kept

/-- No peer of a usable table refuses what a gather sends it. -/
theorem Called.unrefused {d : Deployment table cfg.peers.length}
    {out : View} {evs : Trace}
    (hc : Constructed env cfg w₀) (hd : d.Serves env)
    (hu : Used Outcome.Ordinary w₀ w) (hf : w.table.failed = none)
    (hmax : ∀ i ∈ w.table.peers,
      ((w₀.ranges i).owned ids).length ≤ (d.server i).maxRows.toNat)
    (hv : Entered w out ids.length v)
    (hcalled : Called (peersOf (shares w₀.ranges ids v.table.peers)) evs v w')
    (hsound : Sound w₀.ranges cfg.timeout w')
    (hsends : Sends (Permits ids (shares w₀.ranges ids v.table.peers))
      v.called w')
    (hp : v.called.tr <+: tr) (hp' : tr <+: w'.tr) :
    ¬ (line (w₀.ranges i) i tr).Refused := by
  intro ⟨req, got, hphase, hlen, hbad⟩
  obtain ⟨evs₁, rfl⟩ := hp
  obtain ⟨rest, hrest⟩ := hp'
  have hevs : evs = evs₁ ++ rest := by
    have := hcalled.after
    rw [← hrest, List.append_assoc] at this
    exact (List.append_cancel_left this).symm
  subst hevs
  -- the request went out in this call
  have hgood := (hsound.linked i).good
  have hidle : (v.line w₀.ranges i).phase = .idle := by
    rw [hv.line]
    exact hu.idle hc hf i
  obtain ⟨c, hconn, a, b, rfl, -⟩ :=
    (hcalled.asks hidle hgood).asking req got hphase
  set evs₁ := a ++ .send c req .all :: b with hevs₁
  have hsend : Ev.send c req .all ∈ evs₁ ++ rest := by simp [hevs₁]
  have hpermits : Permits ids (shares w₀.ranges ids v.table.peers) c.peer
      req := by
    obtain ⟨evs', htr, hall⟩ := hsends
    refine hall c req .all ?_
    rw [hcalled.after] at htr
    rwa [← List.append_cancel_left htr]
  -- to a peer of the table
  have hprod : env.Produced (v.called.tr ++ evs₁) :=
    w'.hist.ok.grows ⟨rest, hrest⟩
  have ht := line_traced hprod (g := w₀.ranges i) (i := i) <| by
    unfold World.line at hgood
    rw [show w'.tr = (v.called.tr ++ evs₁) ++ rest from hrest.symm] at hgood
    exact line_not_bad_initial hgood
  obtain rfl : c.peer = i := (ht.conn c hconn).1
  have hi : c.peer ∈ w.table.peers := by
    obtain ⟨sh, hmem, heq⟩ := hcalled.of _ hsend c rfl
    rw [← setup_peers hv.setup, ← heq]
    exact (mem_shares.mp hmem).1
  have hgeo := (hu.recorded hc hd.behind hi).2
  -- and its server does not refuse it
  have hserved : Served (d.server c.peer) req := by
    obtain ⟨hk, ⟨hop, hn⟩ | ⟨sh, hmem, heq, hreq⟩⟩ := hpermits
    · exact served_stat hk hop hn
    · obtain ⟨-, hown, -⟩ := mem_shares.mp hmem
      rw [heq] at hown
      refine served_gather (d.ranged _) hk hreq (hgeo ▸ hown) ?_
      rw [hown]
      exact hmax _ hi
  have hok := (hd _ hprod).header d.ranged ht (by rw [hgeo]; rfl) hconn
    hphase hserved hlen
  rw [hbad] at hok
  cases hok

/-- What `gather_cpu` returns is the table's rows at its ids. -/
theorem gatherCpu_rows (d : Deployment table cfg.peers.length)
    (hc : Constructed env cfg w₀) (hd : d.Behind env)
    (hu : Used Outcome.Ordinary w₀ w) :
    Runs (RemoteTable.gatherCpu ids) w
      (fun out w' => out.read w' = ids.map (fun id => table id.toNat) ∧
        ∀ id ∈ ids, 0 ≤ id ∧ id < cfg.rowsTotal)
      (fun _ _ => True) := by
  obtain ⟨hg, hsetup⟩ := hu.good hc
  refine (gatherCpu_spec hg.sound fun hf => (hg.synced hf).fit).mono ?_
    (fun _ _ _ => trivial)
  intro out w' h
  obtain ⟨v, hv, ⟨rfl, rfl⟩ | ⟨-, -, hgath⟩⟩ := h
  · refine ⟨?_, by simp⟩
    unfold View.read
    rw [hv.rows]
    rfl
  · exact hgath.read hc hd (hv.sound hg.sound) (hv.setup.trans hsetup)
      hv.staging hv.rows

/-- Why `gather_cpu` raises on an unmarked table, asked for rows of it in
shares that fit. -/
theorem gatherCpu_faulted (d : Deployment table cfg.peers.length)
    (hc : Constructed env cfg w₀) (hd : d.Serves env)
    (hu : Used Outcome.Ordinary w₀ w) (hf : w.table.failed = none)
    (hin : ∀ id ∈ ids, 0 ≤ id ∧ id < cfg.rowsTotal)
    (hshare : ∀ i ∈ w.table.peers,
      ((w₀.ranges i).owned ids).length ≤ cfg.maxRows ∧
      ((w₀.ranges i).owned ids).length ≤ (d.server i).maxRows.toNat) :
    Runs (RemoteTable.gatherCpu ids) w (fun _ _ => True)
      (fun _ w' => Faulted cfg.timeout (some w.due) w w') := by
  obtain ⟨hg, hsetup⟩ := hu.good hc
  have hspec : Runs (RemoteTable.gatherCpu ids) w _ _ :=
    (gatherCpu_spec hg.sound fun hf => (hg.synced hf).fit).and
      (gatherCpu_sends hg.sound)
  refine hspec.mono (fun _ _ _ => trivial) ?_
  intro e w' h
  obtain ⟨⟨hids, out, hcase⟩, hsends⟩ := h
  rcases hcase with ⟨v, he, why, hv, hmark, rfl, rfl⟩ | ⟨-, v, hv, hcase⟩
  · rw [hf] at hmark
    cases hmark
  have htr := hv.called_tr
  have hpeers := setup_peers hv.setup
  have hsock : ∀ i ∈ v.table.peers, i ∈ w.table.peers :=
    fun i hi => hpeers ▸ hi
  rcases hcase with hdecl | hwreck
  · -- ids of the table in shares that fit are not declined
    exfalso
    rcases hdecl.why with ⟨i, hi, hover⟩ | hroute
    · rw [setup_maxRows hv.setup, hu.maxRows hc] at hover
      have := (hshare i (hpeers ▸ hi)).1
      omega
    · refine hroute ((hv.sound hg.sound).tiled.length_routed ?_)
      rw [setup_rowsTotal hv.setup, hu.rowsTotal hc]
      exact hin
  rcases hwreck.why with hn | ⟨sh, hmem, hz⟩ | hnone | ⟨sh, hmem, hbig⟩ |
    hfault | ⟨tr, i, ha, hb, href⟩
  · rw [hv.staging] at hn
    cases hn
  · rw [(hu.recorded hc hd.behind (hsock _ (mem_shares.mp hmem).1)).2] at hz
    cases hz
  · obtain ⟨sh, hmem, hnone⟩ := hnone
    have hset := hg.synced hf sh.1 (hsock _ (mem_shares.mp hmem).1)
    rw [World.called, World.push_heap, hv.heap] at hnone
    exact absurd hnone hset.sock
  · obtain ⟨hi, hown, -⟩ := mem_shares.mp hmem
    have h₁ := (hshare sh.1 (hsock _ hi)).2
    have h₂ := (d.ranged sh.1).maxRows.2
    rw [← hown] at h₁
    omega
  · rw [← hv.due]
    refine hfault.after ?_
    rw [htr]
    exact List.prefix_append _ _
  · obtain ⟨evs, hcalled, -⟩ := hwreck.called
    refine absurd href (Called.unrefused hc hd hu hf
      (fun i hi => (hshare i hi).2) hv hcalled hwreck.sound ?_ ha hb)
    rw [hpeers]
    exact (hsends hf).after htr.symm

/-- Over a deployment, whatever the calls before, the chunks the streams
come in, the order the sockets are ready in and the faults on the way: a
gather that returns shows the table's rows at its ids. If it raises
although nothing marked the table, its ids are rows of the table and no
peer's share of them is larger than the client or that peer's server
allows, then a transport fault happened during the call or the clock was
read with no time left. -/
theorem gatherCpu_correct (d : Deployment table cfg.peers.length)
    (hc : Constructed env cfg w₀) (hd : d.Behind env)
    (hu : Used Outcome.Ordinary w₀ w) :
    Runs (RemoteTable.gatherCpu ids) w
      (fun out w' => out.read w' = ids.map (fun id => table id.toNat) ∧
        ∀ id ∈ ids, 0 ≤ id ∧ id < cfg.rowsTotal)
      (fun e w' => (env.Timely → Enough w.due env.rounds w.called →
          e ≠ .outOfRounds) ∧
        (d.Serves env → w.table.failed = none →
          (∀ id ∈ ids, 0 ≤ id ∧ id < cfg.rowsTotal) →
          (∀ i ∈ w.table.peers,
            ((w₀.ranges i).owned ids).length ≤ cfg.maxRows ∧
            ((w₀.ranges i).owned ids).length ≤ (d.server i).maxRows.toNat) →
          Faulted cfg.timeout (some w.due) w w')) := by
  obtain ⟨hg, -⟩ := hu.good hc
  have hrows : Runs (RemoteTable.gatherCpu ids) w _ _ :=
    (gatherCpu_rows d hc hd hu).and
      (gatherCpu_spec hg.sound fun hf => (hg.synced hf).fit)
  have hself : Runs (RemoteTable.gatherCpu ids) w _ _ :=
    hrows.and (Runs.self _ w)
  refine hself.mono ?_ ?_
  · intro out w' h
    exact h.1.1
  · intro e w' h
    obtain ⟨⟨-, -, out, hcase⟩, hrun⟩ := h
    refine ⟨fun hty hen => ?_, fun hd' hf hin hshare => ?_⟩
    · rcases hcase with ⟨v, he, why, hv, -, rfl, -⟩ | ⟨-, v, hv, hcase⟩
      · simp
      · have hab : Abandoned w₀.ranges cfg.timeout ids v e w' :=
          hcase.elim (·.toAbandoned) (·.toAbandoned)
        refine hab.bounded hty ?_
        unfold Enough at hen ⊢
        rw [hv.due, hv.called_tr]
        exact hen
    · have hfault := gatherCpu_faulted d hc hd' hu hf hin hshare
      unfold Runs at hfault
      rw [hrun] at hfault
      exact hfault

/-- The rows of the pair of servers. -/
def pairTable (id : Nat) : List UInt8 :=
  List.replicate 160 (if id = 0 then 7 else 8)

/-- The pair as a deployment of them. -/
def pairDeployment : Deployment pairTable pairConfig.peers.length where
  server := pairServer
  started i := ⟨pairOpts i, pairHost i, pair_accepts i⟩
  holds i hi id ho := by
    obtain ⟨hlo, hhi⟩ := ho
    have hcases : i = 0 ∨ i = 1 := by
      have : i < 2 := hi
      omega
    rcases hcases with rfl | rfl
    · obtain rfl : id = 0 := Nat.lt_one_iff.mp hhi
      rfl
    · obtain rfl : id = 1 := Nat.le_antisymm (Nat.lt_succ_iff.mp hhi) hlo
      rfl

theorem pair_serves : pairDeployment.Serves pairEnv :=
  fun _ h => Env.served_supplied pairDeployment.ranged h

/-- Rows 1, 0 and 1 of the pair. -/
theorem gatherCpu_correct_pair :
    Returns (RemoteTable.gatherCpu [1, 0, 1]) paired = true ∧
      Runs (RemoteTable.gatherCpu [1, 0, 1]) paired
        (fun out w' => out.read w'
            = [(1 : Int), 0, 1].map (fun id => pairTable id.toNat) ∧
          ∀ id ∈ [(1 : Int), 0, 1], 0 ≤ id ∧ id < 2)
        (fun e w' => (pairEnv.Timely →
            Enough paired.due 1 paired.called → e ≠ .outOfRounds) ∧
          (pairDeployment.Serves pairEnv → paired.table.failed = none →
            (∀ id ∈ [(1 : Int), 0, 1], 0 ≤ id ∧ id < 2) →
            (∀ i ∈ paired.table.peers,
              (((paired.ranges i).owned [1, 0, 1]).length : Int) ≤ 4 ∧
              ((paired.ranges i).owned [1, 0, 1]).length
                ≤ (pairServer i).maxRows.toNat) →
            Faulted 30 (some paired.due) paired w')) := by
  refine ⟨by decide +kernel, ?_⟩
  exact gatherCpu_correct pairDeployment paired_constructed
    pair_serves.behind .refl

end PleRowServer.Client
