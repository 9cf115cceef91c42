/-
A usable table between two calls: every peer has an open socket with
nothing outstanding on it. Of peers that answer each request with one
complete response nothing more can be on the way, so the next byte a
call reads is the first of the answer to what it sends.
-/
import PleRowServer.Client.Usage

namespace PleRowServer.Client

open Base Wire
open RemoteTable (Config initial)

variable {env : Env} {geo : PeerId → Geometry} {w w₀ : World env}
  {T : ℚ} {cfg : Config} {i : PeerId}

/-- Every range recorded has rows of the table's size. -/
theorem Used.rowBytes (hc : Constructed env cfg w₀)
    (hu : Used Outcome.Ordinary w₀ w) (hi : i ∈ w.table.peers) :
    (w₀.ranges i).rowBytes = cfg.rowBytes := by
  obtain ⟨hg, hsetup⟩ := hu.good hc
  obtain ⟨-, -, -, -, ps, r, -, htable⟩ := hc.spec
  rw [hg.sound.rowBytes i hi, setup_rowBytes hsetup, htable]
  rfl

/-- All that a peer sent on a settled connection has been read. -/
theorem Settled.drained (hl : Linked geo T i w) (hs : Settled geo i w)
    {c : ConnId} (hc : (w.heap i).sock = some c) {out : List UInt8}
    (hout : Replies (WholeAnswer (geo i).rowBytes) (fun _ _ => False)
      (sentOn w.tr c) out) (hgot : gotOn w.tr c <+: out) :
    out = gotOn w.tr c := by
  have ht := World.traced hl.good
  obtain ⟨hsent, hread⟩ := ht.idle c (hl.sock ▸ hc) hs.idle
  rw [hsent] at hout
  rw [hread] at hgot ⊢
  obtain ⟨-, tail, rfl, htail⟩ := Replies.settled (fun _ _ h => h)
    (fun _ _ h => h.elim) _ ht.settled hout hgot
  rw [htail.nil_of_no_parting, List.append_nil]

/-- Whatever calls a constructed table has served, unless one marked it
every peer has an open socket, nothing pending and no deadline, and all
that a peer of the protocol sent on that socket has been read. -/
theorem between_calls (hc : Constructed env cfg w₀)
    (hu : Used Outcome.Ordinary w₀ w) (hf : w.table.failed = none) :
    ∀ i ∈ w.table.peers, ∃ c, (w.heap i).sock = some c ∧
      (w.heap i).pending = none ∧ (w.heap i).deadline = none ∧
      ∀ out, Replies (WholeAnswer cfg.rowBytes) (fun _ _ => False)
        (sentOn w.tr c) out → gotOn w.tr c <+: out → out = gotOn w.tr c := by
  intro i hi
  obtain ⟨hg, -⟩ := hu.good hc
  have hs := hg.synced hf i hi
  obtain ⟨c, hsock⟩ := Option.ne_none_iff_exists'.mp hs.sock
  refine ⟨c, hsock, hs.pending, hg.sound.deadline i, fun out hout hgot => ?_⟩
  rw [← hu.rowBytes hc hi] at hout
  exact hs.drained (hg.sound.linked i) hsock hout hgot

/-- The pair, after a ping. -/
def pinged : World pairEnv := returned RemoteTable.ping paired

theorem paired_pinged : Used Outcome.Ordinary paired pinged := by
  have hret : Returns RemoteTable.ping paired = true := by decide +kernel
  obtain ⟨_, hx⟩ := Returns.run hret
  have hping : Op.ping.Takes paired .returned pinged := hx
  exact .call .refl hping trivial

theorem between_calls_pair :
    1 ∈ pinged.table.peers ∧ ∃ c, (pinged.heap 1).sock = some c ∧
      (pinged.heap 1).pending = none ∧ (pinged.heap 1).deadline = none ∧
      ∀ out, Replies (WholeAnswer 160) (fun _ _ => False)
        (sentOn pinged.tr c) out → gotOn pinged.tr c <+: out →
        out = gotOn pinged.tr c := by
  have hf : pinged.table.failed = none := by decide +kernel
  have hmem : 1 ∈ pinged.table.peers := by decide +kernel
  exact ⟨hmem, between_calls paired_constructed paired_pinged hf 1 hmem⟩

end PleRowServer.Client
