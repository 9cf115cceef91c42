/-
The wire protocol as docs/protocol.md states it, over raw bytes: where
the fields of a request and of an answer lie, when a request and an
answer are whole, and which reply streams a peer may send for the bytes
it was sent. This is the abstract layer both ends are compared with;
neither end's code is modelled here.

# Self-delimiting messages

The protocol has no resynchronisation point: a reader finds the next
message only by having consumed exactly the previous one. Both
directions are self-delimiting all the same. A request says in its
header how many ids follow, and an answer's length is fixed by its
status and by the request it answers. `WholeRequest.unique` and
`WholeAnswer.unique` are these two facts, and `Replies.settled` is what
they buy: a reader that has taken one accepted answer per request off a
legal reply stream has taken exactly the peer's answers, in order, and
nothing of the stream is left.
-/
import PleRowServer.Base.Bytes

namespace PleRowServer.Wire

open Base

-- ========================================================== vocabulary

/-- "PLER", little-endian. -/
def MAGIC_REQ : Nat := 0x52454C50

/-- "RESP", little-endian. -/
def MAGIC_RESP : Nat := 0x50534552

def VERSION : Nat := 1
def OP_GATHER : Nat := 1
def OP_PING : Nat := 2
def OP_STAT : Nat := 3
def OP_RECHARGE : Nat := 4

/-- Bytes in either header. -/
def HEADER : Nat := 16

/-- Bytes in a STAT body. -/
def STAT_BODY : Nat := 32

/-- Bytes in a RECHARGE body. -/
def RECHARGE_BODY : Nat := 40

-- ================================================= fields of a message

/-- The op of a request. -/
def opOf (req : List UInt8) : Nat := natAt req 5 1

/-- The req_id of a request. -/
def idOf (req : List UInt8) : Nat := natAt req 8 4

/-- The number of ids a request announces. -/
def countOf (req : List UInt8) : Nat := natAt req 12 4

/-- The `j`-th id of a request. -/
def rowIdOf (req : List UInt8) (j : Nat) : Nat := natAt req (HEADER + 4 * j) 4

/-- The magic of an answer. -/
def magicOf (ans : List UInt8) : Nat := natAt ans 0 4

/-- The req_id an answer echoes. -/
def echoOf (ans : List UInt8) : Nat := natAt ans 4 4

/-- The status of an answer. -/
def statusOf (ans : List UInt8) : Nat := natAt ans 8 4

/-- The row count an answer announces. -/
def rowsOf (ans : List UInt8) : Nat := natAt ans 12 4

/-- What follows an answer's header. -/
def bodyOf (ans : List UInt8) : List UInt8 := ans.drop HEADER

/-- Rows a successful answer to `req` announces: a GATHER's count, and
none for any other op. -/
def wantRows (req : List UInt8) : Nat :=
  if opOf req = OP_GATHER then countOf req else 0

/-- Body bytes of a successful answer to `req`, rows being `rb` bytes. -/
def bodyBytes (rb : Nat) (req : List UInt8) : Nat :=
  if opOf req = OP_GATHER then countOf req * rb
  else if opOf req = OP_STAT then STAT_BODY
  else if opOf req = OP_RECHARGE then RECHARGE_BODY
  else 0

-- ================================================ whole messages

/-- A request with all the ids it announces. -/
def WholeRequest (req : List UInt8) : Prop :=
  HEADER ≤ req.length ∧ req.length = HEADER + 4 * countOf req

/-- The header of `ans` is that of a successful answer to `req`. -/
def headerOk (req ans : List UInt8) : Bool :=
  decide (HEADER ≤ ans.length) && magicOf ans == MAGIC_RESP &&
    echoOf ans == idOf req && statusOf ans == 0 && rowsOf ans == wantRows req

/-- `ans` is a whole successful answer to `req`. -/
def accepted (rb : Nat) (req ans : List UInt8) : Bool :=
  headerOk req ans && ans.length == HEADER + bodyBytes rb req

/-- `ans` is one complete response of the protocol to `req`: either a
success with its body or a rejection, which is a header alone. -/
structure WholeAnswer (rb : Nat) (req ans : List UInt8) : Prop where
  header : HEADER ≤ ans.length
  magic : magicOf ans = MAGIC_RESP
  echo : echoOf ans = idOf req
  body : (statusOf ans = 0 ∧ rowsOf ans = wantRows req ∧
      ans.length = HEADER + bodyBytes rb req) ∨
    (statusOf ans ≠ 0 ∧ rowsOf ans = 0 ∧ ans.length = HEADER)

theorem headerOk_iff {req ans : List UInt8} :
    headerOk req ans = true ↔ HEADER ≤ ans.length ∧
      magicOf ans = MAGIC_RESP ∧ echoOf ans = idOf req ∧
      statusOf ans = 0 ∧ rowsOf ans = wantRows req := by
  simp [headerOk, and_assoc]

theorem accepted_iff {rb : Nat} {req ans : List UInt8} :
    accepted rb req ans = true ↔
      headerOk req ans = true ∧ ans.length = HEADER + bodyBytes rb req := by
  simp [accepted]

/-- A header's four fields depend on the first sixteen bytes alone. -/
theorem fields_of_initial {a c : List UInt8} (hac : a <+: c)
    (h : HEADER ≤ a.length) :
    magicOf c = magicOf a ∧ echoOf c = echoOf a ∧
      statusOf c = statusOf a ∧ rowsOf c = rowsOf a := by
  unfold HEADER at h
  exact ⟨natAt_of_initial hac (by omega), natAt_of_initial hac (by omega),
    natAt_of_initial hac (by omega), natAt_of_initial hac (by omega)⟩

/-- Whether a header is acceptable is settled once it is complete. -/
theorem headerOk_of_initial {req a c : List UInt8} (hac : a <+: c)
    (h : HEADER ≤ a.length) : headerOk req c = headerOk req a := by
  obtain ⟨hm, he, hs, hr⟩ := fields_of_initial hac h
  have hc : HEADER ≤ c.length := h.trans hac.length_le
  simp [headerOk, hm, he, hs, hr, h, hc]

theorem accepted.whole {rb : Nat} {req ans : List UInt8}
    (h : accepted rb req ans = true) : WholeAnswer rb req ans := by
  obtain ⟨hh, hl⟩ := accepted_iff.mp h
  obtain ⟨hlen, hm, he, hs, hr⟩ := headerOk_iff.mp hh
  exact ⟨hlen, hm, he, Or.inl ⟨hs, hr, hl⟩⟩

/-- A request's header fixes where it ends. -/
theorem WholeRequest.unique {r r' t t' : List UInt8} (h : WholeRequest r)
    (h' : WholeRequest r') (heq : r ++ t = r' ++ t') : r = r' ∧ t = t' := by
  obtain ⟨hl, hr⟩ := h
  obtain ⟨hl', hr'⟩ := h'
  have hc : countOf r = countOf r' := by
    unfold HEADER at hl hl'
    calc natAt r 12 4 = natAt (r ++ t) 12 4 :=
          (natAt_append_left (by omega)).symm
      _ = natAt (r' ++ t') 12 4 := by rw [heq]
      _ = natAt r' 12 4 := natAt_append_left (by omega)
  exact List.append_inj heq (by rw [hr, hr', hc])

/-- An answer's header and the request it answers fix where it ends. -/
theorem WholeAnswer.unique {rb : Nat} {req a b c : List UInt8}
    (ha : WholeAnswer rb req a) (hb : WholeAnswer rb req b)
    (hac : a <+: c) (hbc : b <+: c) : a = b := by
  obtain ⟨-, -, hsa, -⟩ := fields_of_initial hac ha.header
  obtain ⟨-, -, hsb, -⟩ := fields_of_initial hbc hb.header
  have hst : statusOf a = statusOf b := by rw [← hsa, hsb]
  have hlen : a.length = b.length := by
    rcases ha.body with ⟨hz, -, hla⟩ | ⟨hz, -, hla⟩ <;>
      rcases hb.body with ⟨hz', -, hlb⟩ | ⟨hz', -, hlb⟩
    · rw [hla, hlb]
    · exact absurd (hst ▸ hz) hz'
    · exact absurd (hst.symm ▸ hz') hz
    · rw [hla, hlb]
  exact (List.prefix_of_prefix_length_le hac hbc hlen.le).eq_of_length hlen

-- ====================================================== reply streams

/-- The byte streams a peer may have sent back by the time it was sent
`sent`: some of the whole requests at the front answered in order, each
by `R`. `F` are the parting answers, after which the connection ends;
they need no whole request. -/
inductive Replies (R F : List UInt8 → List UInt8 → Prop) :
    List UInt8 → List UInt8 → Prop
  | quiet (sent : List UInt8) : Replies R F sent []
  | answer {req rest ans out : List UInt8} : WholeRequest req →
      R req ans → Replies R F rest out →
      Replies R F (req ++ rest) (ans ++ out)
  | parting {sent ans : List UInt8} : F sent ans → Replies R F sent ans

/-- One completed exchange: a request and the answer taken for it. -/
structure Exchange where
  req : List UInt8
  ans : List UInt8
deriving DecidableEq, Repr

/-- An exchange whose request is whole and whose answer is a whole
success. -/
def Exchange.Settled (rb : Nat) (x : Exchange) : Prop :=
  WholeRequest x.req ∧ accepted rb x.req x.ans = true

section Streams

variable {rb : Nat} {R F : List UInt8 → List UInt8 → Prop}

/-- A reader that has taken one accepted answer per request off a legal
reply stream holds exactly the peer's own answers; what is left of the
stream replies to what was sent since. -/
theorem Replies.settled_append (hR : ∀ r a, R r a → WholeAnswer rb r a)
    (hF : ∀ s a, F s a → HEADER ≤ a.length ∧ statusOf a ≠ 0)
    {more : List UInt8} :
    ∀ (xs : List Exchange), (∀ x ∈ xs, x.Settled rb) → ∀ {out},
      Replies R F (xs.flatMap Exchange.req ++ more) out →
      xs.flatMap Exchange.ans <+: out →
      (∀ x ∈ xs, R x.req x.ans) ∧
        ∃ tail, out = xs.flatMap Exchange.ans ++ tail ∧
          Replies R F more tail := by
  intro xs
  induction xs with
  | nil =>
      intro _ out hout _
      exact ⟨by simp, out, by simp, hout⟩
  | cons x xs ih =>
      intro hset out hout hpre
      obtain ⟨hreq, hacc⟩ := hset x (by simp)
      have hwhole := accepted.whole hacc
      simp only [List.flatMap_cons, List.append_assoc] at hout hpre
      have hxout : x.ans <+: out := (List.prefix_append _ _).trans hpre
      generalize hsent : x.req ++ (xs.flatMap Exchange.req ++ more) = sent
        at hout
      cases hout with
      | quiet =>
          have := hxout.length_le
          have hl := hwhole.header
          simp only [List.length_nil, HEADER] at this hl
          omega
      | answer hreq' hr hrest =>
          rename_i req rest ans out'
          obtain ⟨rfl, rfl⟩ := hreq.unique hreq' hsent
          have hans : x.ans = ans :=
            hwhole.unique (hR _ _ hr) hxout (List.prefix_append _ _)
          subst hans
          obtain ⟨hall, tail, hout', htail⟩ :=
            ih (fun y hy => hset y (by simp [hy])) hrest
              ((List.prefix_append_right_inj x.ans).mp hpre)
          refine ⟨?_, tail, by simp [hout'], htail⟩
          intro y hy
          rcases List.mem_cons.mp hy with rfl | hy
          · exact hr
          · exact hall y hy
      | parting hf =>
          obtain ⟨-, hst⟩ := hF _ _ hf
          obtain ⟨-, -, hs, -⟩ := fields_of_initial hxout hwhole.header
          obtain ⟨hok, -⟩ := accepted_iff.mp hacc
          obtain ⟨-, -, -, hzero, -⟩ := headerOk_iff.mp hok
          exact absurd (hs.trans hzero) hst

/-- With nothing sent since, nothing of the stream is left unread that a
parting answer does not account for. -/
theorem Replies.settled (hR : ∀ r a, R r a → WholeAnswer rb r a)
    (hF : ∀ s a, F s a → HEADER ≤ a.length ∧ statusOf a ≠ 0)
    (xs : List Exchange) (hxs : ∀ x ∈ xs, x.Settled rb) {out : List UInt8}
    (h : Replies R F (xs.flatMap Exchange.req) out)
    (hout : xs.flatMap Exchange.ans <+: out) :
    (∀ x ∈ xs, R x.req x.ans) ∧
      ∃ tail, out = xs.flatMap Exchange.ans ++ tail ∧ Replies R F [] tail := by
  rw [← List.append_nil (xs.flatMap Exchange.req)] at h
  exact Replies.settled_append hR hF xs hxs h hout

/-- The header of the first answer to a whole request. -/
theorem Replies.header (hR : ∀ r a, R r a → WholeAnswer rb r a)
    {req got out : List UInt8} (hreq : WholeRequest req)
    (h : Replies R F req out) (hout : got <+: out)
    (hgot : HEADER ≤ got.length) :
    (∃ ans, R req ans ∧ headerOk req got = headerOk req ans) ∨
      ∃ ans, F req ans := by
  generalize hsent : req = sent at h
  cases h with
  | quiet =>
      have := hout.length_le
      simp only [List.length_nil, HEADER] at this hgot
      omega
  | answer hreq' hr hrest =>
      rename_i req' rest ans out'
      have hsame : req ++ [] = req' ++ rest := by rwa [List.append_nil]
      rw [← hsent]
      obtain ⟨rfl, -⟩ := hreq.unique hreq' hsame
      refine .inl ⟨ans, hr, ?_⟩
      rw [← headerOk_of_initial hout hgot,
        headerOk_of_initial (List.prefix_append ans out') (hR _ _ hr).header]
  | parting hf => exact .inr ⟨out, hf⟩

/-- A peer may still be silent about what it was sent since. -/
theorem Replies.extend (hF : ∀ s m a, F s a → F (s ++ m) a)
    {sent out : List UInt8} (h : Replies R F sent out) (more : List UInt8) :
    Replies R F (sent ++ more) out := by
  induction h with
  | quiet _ => exact .quiet _
  | answer hreq hr _ ih =>
      rw [List.append_assoc]
      exact .answer hreq hr ih
  | parting hf => exact .parting (hF _ _ _ hf)

theorem Replies.mono {R' F' : List UInt8 → List UInt8 → Prop}
    (hR : ∀ r a, R r a → R' r a) (hF : ∀ s a, F s a → F' s a)
    {sent out : List UInt8} (h : Replies R F sent out) :
    Replies R' F' sent out := by
  induction h with
  | quiet _ => exact .quiet _
  | answer hreq hr _ ih => exact .answer hreq (hR _ _ hr) ih
  | parting hf => exact .parting (hF _ _ hf)

/-- Answers in order are a reply stream. -/
theorem Replies.answers {rest out : List UInt8} :
    ∀ xs : List Exchange, (∀ x ∈ xs, WholeRequest x.req ∧ R x.req x.ans) →
      Replies R F rest out → Replies R F (xs.flatMap Exchange.req ++ rest)
        (xs.flatMap Exchange.ans ++ out) := by
  intro xs
  induction xs with
  | nil => exact fun _ h => h
  | cons x xs ih =>
      intro hx h
      obtain ⟨hreq, hr⟩ := hx x (by simp)
      rw [List.flatMap_cons, List.flatMap_cons, List.append_assoc,
        List.append_assoc]
      exact .answer hreq hr (ih (fun y hy => hx y (by simp [hy])) h)

/-- A peer that answers whole requests and has no parting answers has
nothing to say to an empty stream. -/
theorem Replies.nil_of_no_parting {out : List UInt8}
    (h : Replies R (fun _ _ => False) [] out) : out = [] := by
  generalize hs : ([] : List UInt8) = s at h
  cases h with
  | quiet => exact hs
  | answer hreq _ _ =>
      have := hreq.1
      simp_all [HEADER]
  | parting hf => exact hf.elim

end Streams

end PleRowServer.Wire
