/-
From the checkpoint to a gather: each node's half is written by
ple_export_half.py out of the safetensors, its daemon is started on the
half, and a client gathers from the daemons.

Nothing in between looks at a row. What carries the rows' numbers across
is the header, which places shards by id; the export, which keeps the
order of the range; main, which takes the range from its command line and
holds the file to the size that makes; and STAT, which tells the client.
The one number nobody can check is --base-row (`Node.base`).
-/
import PleRowServer.Client.Live
import PleRowServer.Daemon.CommandLine
import PleRowServer.Export.Main

namespace PleRowServer.Client

open Base Wire Daemon
open RemoteTable (Config initial)

variable {file : List UInt8} {ck : Export.Main.RegularFile}
  {m : Export.ShardMap} {start count : Int} {cut : Nat}
  {half : List UInt8} {args : List Arg} {host : Host} {env : Env}
  {cfg : Config} {w₀ w : World env} {ids : List Int}

-- ============================================================= the export

/-- An export that ended well has written the rows of its range. -/
theorem export_rows (hb : 0 < cut)
    (h : Export.exportFlat file cut m start count = (half, none)) :
    half.map some = Export.rows file m start count := by
  obtain ⟨-, -, hwalk, -⟩ := Export.pieces_spec file m start count hb
  rw [Export.exportFlat_eq, Prod.mk.injEq] at h
  obtain ⟨rfl, hend⟩ := h
  exact (hwalk.resolve_right fun hw => hw.1 hend).2

theorem export_length (hb : 0 < cut)
    (h : Export.exportFlat file cut m start count = (half, none)) :
    half.length = count.toNat * Export.ROW_BYTES := by
  have hlen := congrArg List.length (export_rows hb h)
  rwa [List.length_map, Export.rows_eq, Export.length_stretch] at hlen

/-- An export that wrote a row was of a range of the table. -/
theorem export_range (hc : Export.check m = true) (hb : 0 < cut)
    (h : Export.exportFlat file cut m start count = (half, none))
    (hpos : 0 < count) :
    0 ≤ start ∧
      start + count ≤ Export.N_SHARDS * Export.ROWS_PER_SHARD := by
  rw [Export.exportFlat_eq, Prod.mk.injEq] at h
  obtain hle | ⟨hlo, hhi, -⟩ :=
    (Export.pieces_returns hc file start count hb).mp h.2
  · omega
  · exact ⟨hlo, hhi⟩

/-- A part of a stretch of the table. -/
theorem stretch_part (x : Int) {a b n : Nat} (h : a + b ≤ n) :
    ((Export.stretch file m x n).drop a).take b
      = Export.stretch file m (x + a) b := by
  obtain ⟨c, rfl⟩ := Nat.exists_eq_add_of_le h
  rw [Export.stretch_add, Export.stretch_add, List.append_assoc,
    List.drop_left' (Export.length_stretch x a),
    List.take_left' (Export.length_stretch _ b)]

/-- Row `id` of a half exported from row `start` on is row `id` of the
checkpoint. -/
theorem export_row {id : Nat} (hb : 0 < cut)
    (h : Export.exportFlat file cut m start count = (half, none))
    (hlo : start ≤ id) (hhi : id < start + count) :
    (bytesAt half ((id - start).toNat * ROW_BYTES) ROW_BYTES).map some
      = Export.row file m id := by
  have haddr : start * Export.ROW_BYTES
      + (((id - start).toNat * ROW_BYTES : Nat) : Int)
        = id * Export.ROW_BYTES := by
    simp only [ROW_BYTES, Export.ROW_BYTES]
    omega
  unfold bytesAt
  rw [List.map_take, List.map_drop, export_rows hb h, Export.rows_eq,
    stretch_part _ (by simp only [ROW_BYTES, Export.ROW_BYTES]; omega),
    haddr, Export.row_eq]
  rfl

-- ======================================================= a pair of halves

/-- A header whose shards lie in the file in the order of their ids. -/
def inOrder : Export.ShardMap where
  entries := (List.range Export.N_SHARDS).map fun i : Nat => (i,
    ⟨i * Export.SPAN, (i + 1) * Export.SPAN,
      (Export.ROWS_PER_SHARD, Export.ROW_BYTES), "F8_E4M3"⟩)
  nodup := by decide +kernel

/-- What stands in two rows is short of what a file can hold. -/
theorem twoRows_fits :
    (List.replicate 160 (7 : UInt8) ++ List.replicate 160 8).length
      < 2 ^ 63 := by
  rw [List.length_append, List.length_replicate, List.length_replicate]
  decide

/-- As much of a checkpoint as its first two rows take. -/
def twoRows : Export.Main.RegularFile := ⟨_, twoRows_fits⟩

/-- The command line of one of the pair. -/
def pairArgs (i : PeerId) : List Arg :=
  [⟨.file, ['h']⟩, ⟨.baseRow, if i = 0 then ['0'] else ['1']⟩,
    ⟨.rowCount, ['1']⟩, ⟨.maxRows, ['4']⟩]

set_option maxRecDepth 4000 in
theorem pairArgs_startup (i : PeerId) :
    startup (pairArgs i) (pairHost i) = .ok ⟨pairServer i, 9000, true⟩ := by
  cases i <;> rfl

theorem pairArgs_accepts (i : PeerId) :
    accepts ((pairArgs i).map Arg.read) (pairHost i) = .ok (pairServer i) :=
  (startup_settles.mp (pairArgs_startup i)).1

theorem pairArgs_base (i : PeerId) : Named .baseRow (pairArgs i)
    (UInt64.ofNat (if i = 0 then 0 else 1)) := by
  refine ⟨if i = 0 then ['0'] else ['1'],
    ⟨[⟨.file, ['h']⟩], _, rfl, by simp⟩, ?_⟩
  cases i with
  | zero => exact numeral_digits (show 0 < 2 ^ 64 by decide)
  | succ i => exact numeral_digits (show 1 < 2 ^ 64 by decide)

theorem pairArgs_file (i : PeerId) : Last .file (pairArgs i) ['h'] :=
  ⟨[], _, rfl, by simp⟩

theorem twoRows_written (i : PeerId) :
    Export.Main.stream 1 twoRows inOrder
        ((if i = 0 then 0 else 1 : Nat) : Int) 1 1
      = some (List.replicate 160 (if i = 0 then 7 else 8), none) := by
  cases i with
  | zero => decide +kernel
  | succ i =>
      show Export.Main.stream 1 twoRows inOrder 1 1 1
        = some (List.replicate 160 8, none)
      decide +kernel

-- ============================================================== one daemon

/-- On the file of an export, with a port to listen on, main starts
exactly if it is told to serve as many rows as were exported, and their
ids are u32s; a range of u32s of any other length is refused for the size
of the file. Whether the ids are those the rows were exported under it
cannot tell. -/
theorem startup_export {f : File} {blockMib : Int} {k : Nat}
    {base rows port : UInt64}
    (h : Export.Main.stream blockMib ck m start count k
      = some (f.bytes, none))
    (hfile : ∃ p, Last .file args p ∧
      host.file (String.ofList p) = some f)
    (hstat : host.fstat = true) (hmmap : host.mmap = true)
    (hfine : ∀ a ∈ args, a.Fine) (hbase : Named .baseRow args base)
    (hrows : Named .rowCount args rows)
    (hport : NamedOr .port args 9000 port)
    (hlisten : listenOn host port = true) :
    ((∃ t, startup args host = .ok t) ↔
        0 < count ∧ rows.toNat = count ∧
          base.toNat + rows.toNat < 2 ^ 32) ∧
      (rows.toNat = 0 → startup args host = .error .noRows) ∧
      (0 < rows.toNat → 2 ^ 32 ≤ base.toNat + rows.toNat →
        startup args host = .error .doesNotFit) ∧
      (0 < rows.toNat → base.toNat + rows.toNat < 2 ^ 32 →
        (rows.toNat : Int) ≠ count →
        startup args host = .error .wrongSize) := by
  obtain ⟨cut, hcut, hexport⟩ := Export.Main.stream_written h
  have hlen := export_length hcut hexport
  have hrb : Export.ROW_BYTES = ROW_BYTES := rfl
  have hpick := (pick_number hfine (by decide)).mpr hbase
  have hpick' := (pick_number hfine (by decide)).mpr hrows
  -- main's variables after the option loop
  have hbaseRow : (settle {} args).baseRow = base := by simp [settle, hpick]
  have hrowCount : (settle {} args).rowCount = rows := by
    simp [settle, hpick']
  have hhaveBase : (settle {} args).haveBase = true := by
    simp [settle, hpick]
  have hhaveCount : (settle {} args).haveCount = true := by
    simp [settle, hpick']
  have hopen := settle_file.mpr hfile
  have hpath : (settle {} args).path.isSome = true := by
    cases hp : (settle {} args).path with
    | none => rw [hp] at hopen; cases hopen
    | some p => rfl
  have hportIs : (settle {} args).port = port :=
    (namedOr_iff hfine (by decide)).mpr hport
  have hsize : f.bytes.length = rows.toNat * ROW_BYTES ↔
      rows.toNat = count.toNat := by
    rw [hlen, hrb]
    constructor
    · intro heq
      exact (Nat.eq_of_mul_eq_mul_right (by decide : 0 < ROW_BYTES) heq).symm
    · exact fun heq => by rw [heq]
  obtain ⟨hzero, hbig, hwrong⟩ :=
    setup_refused hopen hhaveBase hhaveCount hstat
  rw [hrowCount, hbaseRow] at hbig hwrong
  rw [hrowCount] at hzero
  have hrefused : ∀ r, setup (settle {} args) host = .error r →
      startup args host = .error r := by
    intro r hr
    rw [startup_fine hfine, hr]
  refine ⟨⟨?_, ?_⟩, fun h0 => hrefused _ (hzero h0),
    fun hpos hover => hrefused _ (hbig hpos hover),
    fun hpos hfits hne => hrefused _ (hwrong hpos hfits fun heq => hne ?_)⟩
  · rintro ⟨t, ht⟩
    obtain ⟨hacc, -⟩ := startup_settles.mp ht
    obtain ⟨-, hset⟩ := accepts_settles.mp hacc
    obtain ⟨-, hpos, hfits, f', hf', -, -, hlen', -⟩ := setup_iff.mp hset
    obtain rfl : f = f' := Option.some.inj (hopen.symm.trans hf')
    rw [hrowCount] at hpos hlen'
    rw [hbaseRow, hrowCount] at hfits
    have heq := hsize.mp hlen'
    exact ⟨by omega, by omega, hfits⟩
  · rintro ⟨hpos, heq, hfits⟩
    have hset := setup_iff.mpr ⟨⟨hpath, hhaveBase, hhaveCount⟩,
      by rw [hrowCount]; omega, by rw [hbaseRow, hrowCount]; exact hfits,
      f, hopen, hstat, hmmap,
      by rw [hrowCount]; exact hsize.mpr (by omega), rfl⟩
    exact ⟨⟨_, port, _⟩, startup_settles.mpr
      ⟨accepts_settles.mpr ⟨hfine, hset⟩, hportIs, rfl, hlisten⟩⟩
  · have := hsize.mp heq
    omega

/-- Told one row, the first of the pair starts, and told two it is
refused. -/
theorem startup_export_pair :
    (∃ t, startup (pairArgs 0) (pairHost 0) = .ok t) ∧
      startup [⟨.file, ['h']⟩, ⟨.baseRow, ['0']⟩, ⟨.rowCount, ['2']⟩]
        (pairHost 0) = .error .wrongSize := by
  have hbase : ∀ {args}, (∀ a ∈ args, a.Fine) →
      pick (numberOf .baseRow) args = some 0 → Named .baseRow args 0 :=
    fun hfine => (pick_number hfine (by decide)).mp
  constructor
  · have hcom := accepts_commands.mp (pairArgs_accepts 0)
    refine (startup_export (twoRows_written 0)
      ⟨['h'], pairArgs_file 0, rfl⟩ rfl rfl hcom.fine hcom.base hcom.rows
      (.inr ⟨by decide, rfl⟩) rfl).1.mpr ?_
    exact ⟨by decide, by decide, by decide⟩
  · obtain ⟨hfine, -⟩ := readOpts_read.mp
      (show readOpts ([⟨.file, ['h']⟩, ⟨.baseRow, ['0']⟩,
        ⟨.rowCount, ['2']⟩].map Arg.read) {} = .ok _ from rfl)
    have hrows := (pick_number hfine (by decide)).mp
      (show pick (numberOf .rowCount) _ = some 2 from rfl)
    exact (startup_export (twoRows_written 0)
      ⟨['h'], ⟨[], _, rfl, by simp⟩, rfl⟩ rfl rfl hfine (hbase hfine rfl)
      hrows (.inr ⟨by decide, rfl⟩) rfl).2.2.2 (by decide) (by decide)
      (by decide)

/-- A node of the table: a half exported from the checkpoint, and the
server main makes of it. The command line names the row the export began
at; that it names as many rows is main's own check. -/
structure Node (ck : Export.Main.RegularFile) (m : Export.ShardMap) where
  start : Nat
  count : Nat
  blockMib : Int
  fuel : Nat
  half : File
  written : Export.Main.stream blockMib ck m start count fuel
    = some (half.bytes, none)
  args : List Arg
  host : Host
  opened : ∃ p, Last .file args p ∧ host.file (String.ofList p) = some half
  base : Named .baseRow args (UInt64.ofNat start)
  server : Server
  started : accepts (args.map Arg.read) host = .ok server

section Nodes

variable (nd : Node ck m)

theorem Node.ranged : Ranged nd.server := (accepts_ranged nd.started).1

/-- The half, as the pieces of the walk. -/
theorem Node.exported : ∃ cut, 0 < cut ∧
    Export.exportFlat ck.bytes cut m nd.start nd.count
      = (nd.half.bytes, none) := Export.Main.stream_written nd.written

/-- The server's file is the half. -/
theorem Node.map_eq : nd.server.map = nd.half.bytes := by
  obtain ⟨path, f, hlast, hf, hmap⟩ := (accepts_commands.mp nd.started).opened
  have hopen := settle_file.mpr nd.opened
  have hopen' := settle_file.mpr ⟨path, hlast, hf⟩
  obtain rfl : nd.half = f := Option.some.inj (hopen.symm.trans hopen')
  exact hmap.symm

/-- The server's range is the one its half was exported for. -/
theorem Node.range (hc : Export.check m = true) :
    nd.server.base32.toNat = nd.start ∧
      nd.server.rows32.toNat = nd.count := by
  have hr := nd.ranged
  have hcom := accepts_commands.mp nd.started
  obtain ⟨cut, hcut, hexport⟩ := nd.exported
  have hlen := export_length hcut hexport
  have hsize := hr.size
  rw [nd.map_eq, hlen] at hsize
  have hrows : nd.server.rows32.toNat = nd.count := by
    have := Nat.eq_of_mul_eq_mul_right (by decide : 0 < ROW_BYTES) hsize
    omega
  have hpos := hr.pos
  obtain ⟨-, hhi⟩ := export_range hc hcut hexport (by omega)
  have hstart : nd.start < 2 ^ 64 := by
    simp only [Export.N_SHARDS, Export.ROWS_PER_SHARD] at hhi
    omega
  refine ⟨?_, hrows⟩
  have hname : nd.server.baseRow = UInt64.ofNat nd.start :=
    Option.some.inj <| ((pick_number hcom.fine (by decide)).mpr hcom.base).symm.trans
      ((pick_number hcom.fine (by decide)).mpr nd.base)
  rw [hr.base, hname, UInt64.toNat_ofNat', Nat.mod_eq_of_lt hstart]

/-- Every row a node owns is the checkpoint's row of that number. -/
theorem Node.row (hc : Export.check m = true) {id : Nat}
    (h : Owns nd.server id) :
    (fileRow nd.server id).map some = Export.row ck.bytes m id := by
  obtain ⟨hbase, hrows⟩ := nd.range hc
  obtain ⟨cut, hcut, hexport⟩ := nd.exported
  obtain ⟨hlo, hhi⟩ := h
  have hrow : (bytesAt nd.half.bytes (((id : Int) - nd.start).toNat
      * ROW_BYTES) ROW_BYTES).map some = Export.row ck.bytes m id :=
    export_row hcut hexport (by omega) (by omega)
  unfold fileRow
  rw [nd.map_eq, hbase, ← hrow]
  congr 3
  omega

end Nodes

-- =========================================================== the checkpoint

/-- The bytes of row `id` of the checkpoint. -/
def checkpointRow (file : List UInt8) (m : Export.ShardMap) (id : Nat) :
    List UInt8 := (Export.row file m id).filterMap fun b => b

/-- The nodes are a deployment of the checkpoint's rows. -/
def deployed (hc : Export.check m = true) (nodes : PeerId → Node ck m)
    (n : Nat) : Deployment (checkpointRow ck.bytes m) n where
  server i := (nodes i).server
  started i := ⟨_, _, (nodes i).started⟩
  holds i _ id ho := by
    unfold checkpointRow
    rw [← (nodes i).row hc ho, List.filterMap_map]
    exact List.filterMap_some.symm

/-- Every row of a constructed table is some server's. -/
theorem Constructed.owner {table : Nat → List UInt8}
    {d : Deployment table cfg.peers.length} (hcon : Constructed env cfg w₀)
    (hd : d.Behind env) {id : Nat} (hid : id < cfg.rowsTotal) :
    ∃ i, Owns (d.server i) id := by
  obtain ⟨hg, -⟩ := hcon.spec
  obtain ⟨i, hi, hlo, hhi⟩ := hg.sound.tiled.cover (Nat.zero_le id)
    (by rw [hcon.rowsTotal rfl]; exact hid)
  rw [(hcon.behind rfl hd hi).2] at hlo hhi
  have hown := (owns_iff (d.ranged i)).mp ⟨Int.ofNat_le.mpr hlo,
    by exact_mod_cast hhi⟩
  exact ⟨i, by simpa using hown.2⟩

theorem pairHalf_lt (i : PeerId) :
    (List.replicate 160 (if i = 0 then (7 : UInt8) else 8)).length
      < 2 ^ 63 := by
  rw [List.length_replicate]
  decide

/-- The pair, each on the export of its row. -/
def pairNode (i : PeerId) : Node twoRows inOrder where
  start := if i = 0 then 0 else 1
  count := 1
  blockMib := 1
  fuel := 1
  half := ⟨List.replicate 160 (if i = 0 then 7 else 8), pairHalf_lt i⟩
  written := twoRows_written i
  args := pairArgs i
  host := pairHost i
  opened := ⟨['h'], pairArgs_file i, rfl⟩
  base := pairArgs_base i
  server := pairServer i
  started := pairArgs_accepts i

/-- Over daemons started on halves exported from one checkpoint, with the
rows their exports began at, a gather that returns shows the rows the
header of the checkpoint places at its ids, wherever in the file their
shards are, and the ids are rows of the checkpoint. -/
theorem gatherCpu_checkpoint (hc : Export.check m = true)
    (nodes : PeerId → Node ck m) (hcon : Constructed env cfg w₀)
    (hd : (deployed hc nodes cfg.peers.length).Behind env)
    (hu : Used Outcome.Ordinary w₀ w) :
    Runs (RemoteTable.gatherCpu ids) w
      (fun out w' => (out.read w').map (List.map some)
          = ids.map (Export.row ck.bytes m) ∧
        ∀ id ∈ ids, 0 ≤ id ∧
          id < Export.N_SHARDS * Export.ROWS_PER_SHARD)
      (fun _ _ => True) := by
  refine (gatherCpu_rows _ hcon hd hu).mono ?_ fun _ _ _ => trivial
  rintro out w' ⟨hread, hids⟩
  -- an id that was gathered is a row of some half
  have howned : ∀ id ∈ ids, 0 ≤ id ∧ ∃ i,
      Owns (nodes i).server id.toNat := by
    intro id hid
    obtain ⟨hlo, hhi⟩ := hids id hid
    exact ⟨hlo, hcon.owner hd (by omega)⟩
  refine ⟨?_, fun id hid => ?_⟩
  · rw [hread, List.map_map]
    refine List.map_congr_left fun id hid => ?_
    obtain ⟨hlo, i, ho⟩ := howned id hid
    have hrow := (nodes i).row hc ho
    rw [Int.toNat_of_nonneg hlo] at hrow
    rw [Function.comp_apply, ← hrow]
    congr 1
    exact ((deployed hc nodes (i + 1)).holds i (Nat.lt_succ_self i) _ ho).symm
  · obtain ⟨hlo, i, ho⟩ := howned id hid
    obtain ⟨hbase, hrows⟩ := (nodes i).range hc
    have hpos := (nodes i).ranged.pos
    obtain ⟨cut, hcut, hexport⟩ := (nodes i).exported
    obtain ⟨-, hend⟩ := export_range hc hcut hexport (by omega)
    have := ho.2
    exact ⟨hlo, by omega⟩

theorem gatherCpu_checkpoint_pair :
    Runs (RemoteTable.gatherCpu [1, 0, 1]) paired
      (fun out w' => (out.read w').map (List.map some)
          = [(1 : Int), 0, 1].map (Export.row twoRows.bytes inOrder) ∧
        ∀ id ∈ [(1 : Int), 0, 1], 0 ≤ id ∧
          id < Export.N_SHARDS * Export.ROWS_PER_SHARD)
      (fun _ _ => True) :=
  gatherCpu_checkpoint (by decide +kernel) pairNode paired_constructed
    (fun _ h => (pair_serves _ h).honest) .refl

end PleRowServer.Client
