/-
What a connection gets when nothing fails: a server whose reads hand
over what the peer sent, chunk by chunk, and whose writes all succeed
answers every whole request it is sent, with enough fuel for its loops.
`Gives` is one such run of a part of the thread, its stream in and its
stream out; it composes over sequences.
-/
import PleRowServer.Daemon.Session

namespace PleRowServer.Daemon

open Base Wire

variable {s : Server} {b : Buffers} {fuel : Nat} {hdr : List UInt8}
  {h : Header} {α β : Type}

/-- The part can read `inp`, write `out` and end in `x`. -/
def Gives (p : Serving α) (inp out : List UInt8) (x : α) : Prop :=
  ∃ tr, Prog.Does p tr x ∧ readBytes tr = inp ∧ writtenBytes tr = out

/-- A value takes and gives nothing. -/
theorem gives_pure (x : α) : Gives (pure x) [] [] x :=
  ⟨[], .ret x, rfl, rfl⟩

/-- One part after another. -/
theorem Gives.bind {p : Serving α} {f : α → Serving β} {x : α} {y : β}
    {i o i' o' : List UInt8} (hp : Gives p i o x) (hf : Gives (f x) i' o' y) :
    Gives (p >>= f) (i ++ i') (o ++ o') y := by
  obtain ⟨a, ha, rfl, rfl⟩ := hp
  obtain ⟨c, hc, rfl, rfl⟩ := hf
  exact ⟨a ++ c, Prog.does_bind.mpr ⟨a, c, x, rfl, ha, hc⟩,
    readBytes_append a c, writtenBytes_append a c⟩

/-- A choice of a first part before a common rest. -/
theorem Gives.bind_ite {c : Prop} [Decidable c] {p q : Serving α}
    {f : α → Serving β} {x : α} {y : β} {i o i' o' : List UInt8}
    (hp : Gives (if c then p else q) i o x) (hf : Gives (f x) i' o' y) :
    Gives (if c then p >>= f else q >>= f) (i ++ i') (o ++ o') y := by
  split
  case isTrue hc =>
    rw [if_pos hc] at hp
    exact hp.bind hf
  case isFalse hc =>
    rw [if_neg hc] at hp
    exact hp.bind hf

/-- A call before the rest. -/
theorem Gives.act (a : Sock) (r : a.Reply) {k : a.Reply → Serving β} {y : β}
    {i o : List UInt8} (hk : Gives (k r) i o y) :
    Gives (.act a k) (input ⟨a, r⟩ ++ i) (output ⟨a, r⟩ ++ o) y := by
  obtain ⟨c, hc, rfl, rfl⟩ := hk
  exact ⟨⟨a, r⟩ :: c, .act r hc, readBytes_cons _ _, writtenBytes_cons _ _⟩

/-- A call before the rest that is neither a read nor a write. -/
theorem Gives.quiet (a : Sock) (r : a.Reply) {k : a.Reply → Serving β}
    {y : β} {i o : List UInt8} (hi : input ⟨a, r⟩ = [])
    (ho : output ⟨a, r⟩ = []) (hk : Gives (k r) i o y) :
    Gives (.act a k) i o y := by
  have := Gives.act a r hk
  rwa [hi, ho, List.nil_append, List.nil_append] at this

/-- A call that moves no byte. -/
theorem Gives.calls (a : Sock) (r : a.Reply) {f : a.Reply → Serving β}
    {y : β} {i o : List UInt8} (hi : input ⟨a, r⟩ = [])
    (ho : output ⟨a, r⟩ = []) (hf : Gives (f r) i o y) :
    Gives (Prog.perform a >>= f) i o y :=
  Gives.quiet a r hi ho hf

/-- A run may have its streams written another way. -/
theorem Gives.cast {p : Serving α} {x : α} {i o i' o' : List UInt8}
    (h : Gives p i o x) (hi : i = i') (ho : o = o') : Gives p i' o' x := by
  rw [← hi, ← ho]
  exact h

-- ============================================================== the parts

/-- All the bytes asked for in one chunk. -/
theorem readFull_gives (fuel : Nat) (bs : List UInt8) :
    Gives (readFull (fuel + 1) bs.length) bs [] (.ok bs) := by
  unfold readFull
  by_cases hbs : bs = []
  · subst hbs
    exact gives_pure _
  have hlen : 0 < bs.length := List.length_pos_iff.mpr hbs
  have hend : Gives (readLoop bs.length fuel bs) [] [] (.ok bs) := by
    unfold readLoop
    rw [if_pos le_rfl]
    exact gives_pure _
  unfold readLoop
  rw [if_neg (by rw [List.length_nil]; omega)]
  exact Gives.cast (Gives.act (Sock.read bs.length)
    (ReadAnswer.data bs hbs le_rfl) hend)
    (List.append_nil bs) rfl

/-- All of a response in one write. -/
theorem writeFull_gives (data : List UInt8) :
    Gives (writeFull (fuel + 1) data) [] data .ok := by
  unfold writeFull
  by_cases hd : data = []
  · subst hd
    exact gives_pure _
  have hend : Gives (writeLoop fuel (data.drop data.length)) [] [] .ok := by
    unfold writeLoop
    rw [List.drop_length, if_pos rfl]
    exact gives_pure _
  unfold writeLoop
  rw [if_neg hd]
  refine Gives.cast (Gives.act (Sock.write data) (WriteAnswer.wrote
    data.length (List.length_pos_iff.mpr hd) le_rfl) hend) rfl ?_
  show data.take data.length ++ [] = data
  rw [List.take_length, List.append_nil]

/-- A response is given in one piece. -/
theorem respond_gives (fuel : Nat) (b : Buffers) (id st cnt : UInt32) (body : Nat) :
    Gives (respond (fuel + 1) b id st cnt body) []
      (response b.resp id st cnt body)
      (.go { b with resp := stores b.resp (headerStores id st cnt) }) := by
  have hsend : Gives (sendResponse (fuel + 1) b.resp id st cnt body) []
      (response b.resp id st cnt body)
      (stores b.resp (headerStores id st cnt), .ok) :=
    Gives.cast (Gives.bind (writeFull_gives _) (gives_pure _)) rfl
      (List.append_nil _)
  exact Gives.cast (Gives.bind hsend (gives_pure _)) rfl (List.append_nil _)

/-- The ids to drop, a scratch buffer at a time. -/
theorem drainLoop_gives : ∀ (rounds : Nat) (bs scratch : List UInt8),
    bs.length ≤ rounds → 0 < scratch.length →
    ∃ scratch', scratch'.length = scratch.length ∧
      Gives (drainLoop (fuel + 1) rounds bs.length scratch) bs []
        (scratch', .ok) := by
  intro rounds
  induction rounds with
  | zero =>
      intro bs scratch hle _
      obtain rfl := List.length_eq_zero_iff.mp (Nat.le_zero.mp hle)
      exact ⟨scratch, rfl, gives_pure _⟩
  | succ rounds ih =>
      intro bs scratch hle hpos
      unfold drainLoop
      split
      case isTrue hz =>
        obtain rfl := List.length_eq_zero_iff.mp hz
        exact ⟨scratch, rfl, gives_pure _⟩
      case isFalse hz =>
        set n := if bs.length < scratch.length then bs.length
          else scratch.length with hn
        have hn' : 0 < n ∧ n ≤ bs.length ∧ n ≤ scratch.length := by
          rw [hn]
          split <;> omega
        have htake : (bs.take n).length = n := by
          rw [List.length_take]
          omega
        have hdrop : (bs.drop n).length = bs.length - n := List.length_drop
        have hfit : (splice scratch 0 (bs.take n)).length = scratch.length :=
          length_splice (by omega)
        obtain ⟨scratch', hlen, hg⟩ := ih (bs.drop n)
          (splice scratch 0 (bs.take n)) (by omega) (by rw [hfit]; exact hpos)
        refine ⟨scratch', hlen.trans hfit, ?_⟩
        have hread := readFull_gives fuel (bs.take n)
        rw [htake] at hread
        rw [hdrop] at hg
        exact Gives.cast (Gives.bind hread hg) (List.take_append_drop n bs) rfl

-- =========================================================== one request

/-- A GATHER that fits is answered. -/
theorem serveGather_gives (fuel : Nat) (hr : Ranged s) (hb : Sized s b)
    (hp : Parsed hdr h) (hkept : ¬ Dropped s hdr) {ids : List UInt8}
    (hids : ids.length = 4 * countOf hdr) (f : Facts) :
    ∃ b', Sized s b' ∧ Gives (serveGather s (fuel + 1) b h.reqId h.count) ids
      (answerTo s f (hdr ++ ids)) (.go b') := by
  obtain ⟨st, resp, hrun, hsized, hbad, hgood⟩ :=
    gatherRows_answers hr hb hp hkept hids f
  have hread : Gives (if 0 < h.count then readFull (fuel + 1) (4 * h.count.toNat)
      else pure (.ok []) : Serving Rd) ids [] (.ok ids) := by
    rw [hp.count, ← hids]
    split
    · exact readFull_gives fuel ids
    · obtain rfl : ids = [] := List.length_eq_zero_iff.mp (by
        have := mt (pos_iff h.count).mpr ‹_›
        rw [hp.count] at this
        omega)
      exact gives_pure _
  have hrest : ∃ b', Sized s b' ∧ Gives (if st ≠ ST_OK then
        respond (fuel + 1) ⟨resp, splice b.ids 0 ids⟩ h.reqId st 0 0
      else respond (fuel + 1) ⟨resp, splice b.ids 0 ids⟩ h.reqId ST_OK h.count
        (h.count.toNat * ROW_BYTES)) [] (answerTo s f (hdr ++ ids))
      (.go b') := by
    split
    case isTrue hst =>
      exact ⟨_, hsized.stores _, Gives.cast (respond_gives fuel _ _ _ _ _) rfl
        (hbad hst)⟩
    case isFalse hst =>
      exact ⟨_, hsized.stores _, Gives.cast (respond_gives fuel _ _ _ _ _) rfl
        (hgood (not_not.mp hst))⟩
  obtain ⟨b', hb', hg⟩ := hrest
  refine ⟨b', hb', Gives.cast (Gives.bind_ite hread ?_)
    (List.append_nil ids) rfl⟩
  dsimp only
  rw [hrun]
  exact hg

/-- An op with no ids of its own is answered with the facts it is
given. -/
theorem serveBare_gives (hr : Ranged s) (hb : Sized s b)
    (hp : Parsed hdr h) (hop : opOf hdr ≠ Wire.OP_GATHER)
    (ids : List UInt8) (f : Facts) :
    ∃ b', Sized s b' ∧ Gives (serveBare s (fuel + 1) b h) []
      (answerTo s f (hdr ++ ids)) (.go b') := by
  obtain ⟨hsized, hans⟩ := bareReply_answers hr hb hp hop ids f
  have hgo := respond_gives fuel (bareReply s b h f).1 h.reqId
    (bareReply s b h f).2.1 0 (bareReply s b h f).2.2
  rw [hans] at hgo
  have hstored := hsized.stores (headerStores h.reqId (bareReply s b h f).2.1 0)
  refine ⟨_, hstored, ?_⟩
  revert hgo
  generalize bareReply_eq : bareReply s b h f = r
  unfold bareReply at bareReply_eq
  unfold serveBare
  split
  case isTrue h1 =>
    rw [if_pos h1] at bareReply_eq
    subst bareReply_eq
    exact id
  case isFalse h1 =>
  rw [if_neg h1] at bareReply_eq
  split
  case isTrue h2 =>
    rw [if_pos h2] at bareReply_eq
    subst bareReply_eq
    intro hgo
    dsimp only at hgo ⊢
    refine Gives.calls Sock.resident f.pages rfl rfl ?_
    refine Gives.calls Sock.served f.served rfl rfl ?_
    exact hgo
  case isFalse h2 =>
  rw [if_neg h2] at bareReply_eq
  split
  case isTrue h3 =>
    rw [if_pos h3] at bareReply_eq
    intro hgo
    refine Gives.quiet (Sock.recharge h.arg) (f.status, f.report) rfl rfl ?_
    show Gives (if f.status ≠ ST_OK then _ else _) _ _ _
    split
    case isTrue hst =>
      rw [if_pos hst] at bareReply_eq
      subst bareReply_eq
      exact hgo
    case isFalse hst =>
      rw [if_neg hst] at bareReply_eq
      subst bareReply_eq
      exact hgo
  case isFalse h3 =>
    rw [if_neg h3] at bareReply_eq
    subst bareReply_eq
    exact id

/-- Every whole request the server acts on can be answered. -/
theorem serveHeader_gives (hr : Ranged s) (hb : Sized s b)
    (hp : Parsed hdr h) {ids : List UInt8}
    (hids : ids.length = 4 * countOf hdr) (hadm : Admits s (hdr ++ ids))
    (hfuel : MAX_DRAIN_BYTES ≤ fuel) (f : Facts) :
    ∃ b', Sized s b' ∧ Gives (serveHeader s (fuel + 1) b h) ids
      (answerTo s f (hdr ++ ids)) (.go b') := by
  have hknown : Known hdr := (known_append ids hp.length.ge).mp hadm.known
  have hfits : ¬ Overlong s hdr :=
    mt (overlong_append ids hp.length.ge).mpr hadm.fits
  have hscratch : 0 < b.ids.length := by
    rw [hb.ids, hr.idsSize]
    have := hr.maxRows.1
    omega
  unfold serveHeader
  rw [if_neg (hp.known_iff.mp hknown)]
  split
  case isTrue hkeep =>
    obtain ⟨b', hb', hg⟩ := serveGather_gives fuel hr hb hp
      (mt hp.dropped_iff.mp (not_not.mpr hkeep)) hids f
    exact ⟨b', hb', Gives.quiet Sock.count () rfl rfl hg⟩
  case isFalse hkeep =>
    have hdrop : Dropped s hdr := hp.dropped_iff.mpr hkeep
    have hle : ¬ MAX_DRAIN_BYTES < 4 * countOf hdr := fun hlt =>
      hfits ⟨hdrop, hlt⟩
    -- the ids go first
    have hdrains : ∃ scratch, scratch.length = b.ids.length ∧
        Gives (if h.op = Daemon.OP_GATHER ∨ 0 < h.count then
            drain (fuel + 1) b.ids h.idBytes
          else pure (b.ids, .ok) : Serving (List UInt8 × Io)) ids []
          (scratch, .ok) := by
      split
      case isTrue =>
        unfold drain
        rw [hp.idBytes, if_neg hle, ← hids]
        exact drainLoop_gives (fuel + 1) ids b.ids (by omega) hscratch
      case isFalse hnone =>
        have hz : ids = [] := List.length_eq_zero_iff.mp (by
          have := mt (pos_iff h.count).mpr (not_or.mp hnone).2
          rw [hp.count] at this
          omega)
        rw [hz]
        exact ⟨b.ids, rfl, gives_pure _⟩
    obtain ⟨scratch, hlen, hdrain⟩ := hdrains
    have hb' : Sized s { b with ids := scratch } :=
      ⟨hb.resp, hlen.trans hb.ids⟩
    have hrest : ∃ b'', Sized s b'' ∧ Gives (if h.op = Daemon.OP_GATHER then
          respond (fuel + 1) { b with ids := scratch } h.reqId ST_TOO_MANY 0 0
        else serveBare s (fuel + 1) { b with ids := scratch } h) []
        (answerTo s f (hdr ++ ids)) (.go b'') := by
      split
      case isTrue hop =>
        have hgo := respond_gives fuel { b with ids := scratch }
          h.reqId ST_TOO_MANY 0 0
        have hans := tooMany_answers hr hb' hp ((hp.op_iff _).mp hop) hdrop ids f
        exact ⟨_, hb'.stores _, Gives.cast hgo rfl hans⟩
      case isFalse hop =>
        exact serveBare_gives hr hb' hp
          (fun hg => hop ((hp.op_iff Daemon.OP_GATHER).mpr hg)) ids f
    obtain ⟨b'', hb'', hg⟩ := hrest
    refine ⟨b'', hb'', Gives.quiet Sock.count () rfl rfl ?_⟩
    exact Gives.cast (Gives.bind_ite hdrain hg) (List.append_nil ids)
      (List.nil_append _)

-- ============================================================= all of them

/-- Requests are answered in order, one by one. -/
theorem serveLoop_gives (hr : Ranged s) (hfuel : MAX_DRAIN_BYTES ≤ fuel)
    (f : Facts) : ∀ (xs : List (List UInt8)) (b : Buffers) (rounds : Nat),
    (∀ x ∈ xs, Admits s x) → Sized s b → xs.length < rounds →
    Gives (serveLoop s (fuel + 1) rounds b) xs.flatten
      (xs.flatMap (answerTo s f)) .eof := by
  intro xs
  induction xs with
  | nil =>
      intro b rounds _ hb hlt
      cases rounds with
      | zero => exact absurd hlt (Nat.not_lt_zero _)
      | succ rounds =>
          -- the peer closes between requests
          have heof : Gives (readFull (fuel + 1) HDR_BYTES) [] [] .eof :=
            Gives.act (Sock.read HDR_BYTES) ReadAnswer.eof (gives_pure _)
          unfold serveLoop
          exact Gives.bind heof (gives_pure _)
  | cons x xs ih =>
      intro b rounds hadm hb hlt
      cases rounds with
      | zero => exact absurd hlt (Nat.not_lt_zero _)
      | succ rounds =>
          have hx := hadm x (by simp)
          obtain ⟨hlen, hspan⟩ := hx.whole
          have hhdr : (x.take HEADER).length = HEADER := by
            rw [List.length_take]
            omega
          have hsplit : x.take HEADER ++ x.drop HEADER = x :=
            List.take_append_drop HEADER x
          have hids : (x.drop HEADER).length = 4 * countOf (x.take HEADER) := by
            have hc := countOf_append (x.drop HEADER) hhdr.ge
            rw [hsplit] at hc
            rw [List.length_drop, hspan, hc]
            omega
          obtain ⟨b', hb', hg⟩ := serveHeader_gives hr hb
            (parseHeader_parsed hhdr) hids (by rw [hsplit]; exact hx) hfuel f
          rw [hsplit] at hg
          have hread := readFull_gives fuel (x.take HEADER)
          rw [hhdr] at hread
          have hrest := ih b' rounds (fun y hy => hadm y (by simp [hy])) hb'
            (by simpa using hlt)
          unfold serveLoop
          refine Gives.cast (Gives.bind hread (Gives.bind hg hrest)) ?_ rfl
          rw [List.flatten_cons, ← List.append_assoc, hsplit]

/-- With enough fuel a connection's thread can answer every request of a
stream. -/
theorem serveConn_gives (hr : Ranged s) (hb : Sized s b) (f : Facts)
    {xs : List (List UInt8)} (hadm : ∀ x ∈ xs, Admits s x) :
    ∃ fuel, Gives (serveConn s fuel (some b)) xs.flatten
      (xs.flatMap (answerTo s f)) .eof :=
  ⟨MAX_DRAIN_BYTES + xs.length + 1,
    serveLoop_gives hr (Nat.le_add_right _ _) f xs b _ hadm hb (by omega)⟩

end PleRowServer.Daemon
