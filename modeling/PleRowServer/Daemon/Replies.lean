/-
A connection's thread as a peer of the protocol: whatever it has
written is the beginning of a legal reply stream for what it has read.
The requests it acts on get their answers, in order; a parting answer is
never a success, and only a header it does not know, ids it drops or a
failed allocation bring one.
-/
import PleRowServer.Daemon.Progress

namespace PleRowServer.Daemon

open Base Wire

variable {s : Server} {b : Buffers} {fuel : Nat} {tr : Run} {stop : Stop}
  {xs : List Exchange} {tail rest : List UInt8}

-- =============================================================== replies

/-- An answer to a request the server acts on. -/
def Answers (s : Server) (req ans : List UInt8) : Prop :=
  Admits s req ∧ ∃ f, ans = answerTo s f req

/-- An answer that is no success. -/
def Refuses (ans : List UInt8) : Prop :=
  HEADER ≤ ans.length ∧ statusOf ans ≠ 0

/-- The answer with which the server ends a connection. -/
def Parts (s : Server) (sent ans : List UInt8) : Prop :=
  Refuses ans ∧ HEADER ≤ sent.length ∧
    (¬ Known sent ∨ Dropped s sent ∧ 0 < countOf sent)

/-- What parted stays so, whatever is sent after. -/
theorem Parts.extend {sent ans : List UInt8} (h : Parts s sent ans)
    (more : List UInt8) : Parts s (sent ++ more) ans := by
  obtain ⟨hr, hlen, hwhy⟩ := h
  refine ⟨hr, ?_, ?_⟩
  · rw [List.length_append]
    exact hlen.trans (Nat.le_add_right _ _)
  · rw [known_append more hlen, dropped_append more hlen,
      countOf_append more hlen]
    exact hwhy

/-- A header with a status other than zero refuses. -/
theorem refuses_header {id st : Nat} (hid : id < 2 ^ 32) (hst : st < 2 ^ 32)
    (hne : st ≠ 0) : Refuses (answerHeader id st 0) := by
  have hf := answerHeader_fields hid hst (by decide : 0 < 2 ^ 32) []
  rw [List.append_nil] at hf
  exact ⟨(length_answerHeader hid hst (by decide)).ge, by
    rw [hf.2.2.1]; exact hne⟩

/-- An answer is one that the client takes for whole. -/
theorem Answers.whole (hr : Ranged s) {req ans : List UInt8}
    (h : Answers s req ans) : WholeAnswer ROW_BYTES req ans := by
  obtain ⟨-, f, rfl⟩ := h
  exact answerTo_whole hr f req

/-- What is left of a session is the beginning of one more reply. -/
theorem Ending.replies (h : Ending s tr stop tail rest) :
    ∃ out, Replies (Answers s) (Parts s) tail out ∧ rest <+: out := by
  have hpart : ∀ st : UInt32, st.toNat ≠ 0 → HEADER ≤ tail.length →
      (¬ Known tail ∨ Dropped s tail ∧ 0 < countOf tail) →
      Replies (Answers s) (Parts s) tail (answerHeader (idOf tail) st.toNat 0) :=
    fun st hst hlen hwhy => .parting
      ⟨refuses_header (natAt_lt tail 8 4) st.toNat_lt hst, hlen, hwhy⟩
  cases h with
  | eof => exact ⟨[], .quiet _, List.prefix_rfl⟩
  | begun _ _ => exact ⟨[], .quiet _, List.prefix_rfl⟩
  | short _ _ _ _ _ => exact ⟨[], .quiet _, List.prefix_rfl⟩
  | undrained _ _ hdrop hhdr hlen hrest =>
      exact ⟨_, hpart ST_TOO_MANY (by decide) hhdr
        (.inr ⟨hdrop, by omega⟩), hrest⟩
  | overlong _ _ hover hhdr hrest =>
      refine ⟨_, hpart ST_TOO_MANY (by decide) hhdr.ge
        (.inr ⟨hover.1, ?_⟩), hrest⟩
      have := hover.2
      omega
  | unknown _ hunknown hhdr hrest =>
      exact ⟨_, hpart ST_BAD_HEADER (by decide) hhdr.ge (.inl hunknown), hrest⟩
  | @unwritten _ _ _ f _ hadm hrest _ =>
      refine ⟨_, ?_, hrest⟩
      have : Replies (Answers s) (Parts s) (tail ++ [])
          (answerTo s f tail ++ []) :=
        .answer hadm.whole ⟨hadm, f, rfl⟩ (.quiet [])
      rwa [List.append_nil, List.append_nil] at this

/-- A session is the beginning of a reply stream. -/
theorem Session.replies (h : Session s tr stop xs tail rest) :
    ∃ out, Replies (Answers s) (Parts s) (readBytes tr) out ∧
      writtenBytes tr <+: out := by
  obtain ⟨out, hout, hrest⟩ := h.ending.replies
  refine ⟨xs.flatMap Exchange.ans ++ out, ?_, ?_⟩
  · rw [h.read]
    exact .answers xs (fun x hx => ⟨(h.handled x hx).1.whole, h.handled x hx⟩)
      hout
  · rw [h.written]
    exact (List.prefix_append_right_inj _).mpr hrest

/-- A connection without buffers answers at most one header, with an
error. -/
theorem serveStarved_replies
    (hd : Prog.Does (serveStarved fuel) tr stop) :
    ∃ out, Replies (Answers s) (fun _ => Refuses) (readBytes tr) out ∧
      writtenBytes tr <+: out := by
  unfold serveStarved at hd
  obtain ⟨a, t, r, rfl, ha, ht⟩ := Prog.does_bind.mp hd
  obtain ⟨hreads, hw⟩ := readFull_reads ha
  have hquiet : ∀ {x}, Prog.Does (pure x : Serving Stop) t stop →
      ∃ out, Replies (Answers s) (fun _ => Refuses) (readBytes (a ++ t)) out ∧
        writtenBytes (a ++ t) <+: out := by
    intro x hp
    obtain ⟨rfl, -⟩ := Prog.does_pure.mp hp
    rw [List.append_nil, hw]
    exact ⟨[], .quiet _, List.prefix_rfl⟩
  cases r with
  | ok hdr =>
      have hlen : hdr.length = HDR_BYTES := by
        cases hreads with
        | ok hlen _ => exact hlen
      obtain ⟨t₁, t₂, x, rfl, h₁, h₂⟩ := Prog.does_bind.mp ht
      obtain ⟨-, hwrote⟩ := sendResponse_wrote h₁
      have hmute : t₂ = [] := by
        obtain ⟨resp, io⟩ := x
        cases io <;> exact (Prog.does_pure.mp h₂).1
      subst hmute
      rw [response_packed (by rw [hlen]; rfl)] at hwrote
      have hrefuse := refuses_header (UInt32.toNat_lt (rdU32 hdr 8))
        (UInt32.toNat_lt ST_INTERNAL) (by decide)
      refine ⟨_, .parting hrefuse, ?_⟩
      rw [writtenBytes_append, hw, List.nil_append, List.append_nil]
      have hinit := hwrote.initial
      rwa [show bytesAt hdr HDR_BYTES 0 = [] from List.take_zero,
        List.append_nil] at hinit
  | spent => exact hquiet ht
  | eof => exact hquiet ht
  | timeout => exact hquiet ht
  | err => exact hquiet ht

end PleRowServer.Daemon
