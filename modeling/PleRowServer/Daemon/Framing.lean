/-
What a run of `read_full`, `write_full` and `drain` takes off the
connection and puts on it, however the calls split the bytes, and how it
stands with calls that fail: none does in a run that comes back well,
and in one that does not the one that fails is the last (`EndsIn`).
-/
import PleRowServer.Daemon.ServeConn

namespace PleRowServer.Daemon

open Base Wire

variable {s : Server}

-- =============================================================== traces

/-- A run of a connection's thread. -/
abbrev Run := List (Did Sock Sock.Reply)

/-- The bytes one call took off the connection. -/
def input : Did Sock Sock.Reply → List UInt8
  | ⟨.read _, .data bs _ _⟩ => bs
  | _ => []

/-- The bytes one call put on it. -/
def output : Did Sock Sock.Reply → List UInt8
  | ⟨.write data, .wrote k _ _⟩ => data.take k
  | _ => []

/-- A read that found the peer gone. -/
def Closed : Did Sock Sock.Reply → Prop
  | ⟨.read _, .eof⟩ => True
  | _ => False

/-- A read that the receive timeout ended. -/
def Stalled : Did Sock Sock.Reply → Prop
  | ⟨.read _, .eagain⟩ => True
  | _ => False

/-- A read that brought no bytes for good: the peer was gone, or the
receive timeout or an error ended it. -/
def ReadFailed : Did Sock Sock.Reply → Prop
  | ⟨.read _, .eof⟩ => True
  | ⟨.read _, .eagain⟩ => True
  | ⟨.read _, .error⟩ => True
  | _ => False

/-- A write that took no bytes for good. -/
def WriteFailed : Did Sock Sock.Reply → Prop
  | ⟨.write _, .zero⟩ => True
  | ⟨.write _, .error⟩ => True
  | _ => False

/-- A call that ends the relay of bytes. -/
def Failed (d : Did Sock Sock.Reply) : Prop := ReadFailed d ∨ WriteFailed d

/-- A read, whatever came of it. -/
def IsRead : Did Sock Sock.Reply → Prop
  | ⟨.read _, _⟩ => True
  | _ => False

/-- A call that is neither a read nor a write. -/
def Quiet : Did Sock Sock.Reply → Prop
  | ⟨.read _, _⟩ => False
  | ⟨.write _, _⟩ => False
  | _ => True

/-- All bytes taken off the connection. -/
def readBytes (tr : Run) : List UInt8 := tr.flatMap input

/-- All bytes put on it. -/
def writtenBytes (tr : Run) : List UInt8 := tr.flatMap output

/-- No call of a run failed. -/
def Clean (tr : Run) : Prop := ∀ d ∈ tr, ¬ Failed d

/-- The one call of a run that failed is its last, and is such a one. -/
def EndsIn (P : Did Sock Sock.Reply → Prop) (tr : Run) : Prop :=
  ∃ pre a, Clean pre ∧ P a ∧ tr = pre ++ [a]

/-- The last call of a run is such a one, whatever came before. -/
def LastCall (P : Did Sock Sock.Reply → Prop) (tr : Run) : Prop :=
  ∃ pre a, P a ∧ tr = pre ++ [a]

/-- A run that only writes. -/
def Mute (tr : Run) : Prop := ∀ d ∈ tr, ¬ IsRead d

/-- Nothing is read by doing nothing. -/
@[simp] theorem readBytes_nil : readBytes [] = [] := rfl

/-- One run after another reads the bytes of both, in order. -/
@[simp] theorem readBytes_append (a b : Run) :
    readBytes (a ++ b) = readBytes a ++ readBytes b := by
  simp [readBytes]

/-- The bytes read come call by call. -/
@[simp] theorem readBytes_cons (d : Did Sock Sock.Reply) (tr : Run) :
    readBytes (d :: tr) = input d ++ readBytes tr := by
  simp [readBytes]

/-- Nothing is written by doing nothing. -/
@[simp] theorem writtenBytes_nil : writtenBytes [] = [] := rfl

/-- One run after another writes the bytes of both, in order. -/
@[simp] theorem writtenBytes_append (a b : Run) :
    writtenBytes (a ++ b) = writtenBytes a ++ writtenBytes b := by
  simp [writtenBytes]

/-- The bytes written come call by call. -/
@[simp] theorem writtenBytes_cons (d : Did Sock Sock.Reply) (tr : Run) :
    writtenBytes (d :: tr) = output d ++ writtenBytes tr := by
  simp [writtenBytes]

/-- Nothing fails where nothing is done. -/
theorem clean_nil : Clean [] := by
  intro d hd
  cases hd

/-- Nothing fails in two runs if nothing does in either. -/
theorem Clean.append {a b : Run} (ha : Clean a) (hb : Clean b) :
    Clean (a ++ b) := by
  intro d hd
  rcases List.mem_append.mp hd with hd | hd
  · exact ha d hd
  · exact hb d hd

/-- Nothing fails if the first call does not, and none after it. -/
theorem Clean.cons {d : Did Sock Sock.Reply} {tr : Run} (hd : ¬ Failed d)
    (h : Clean tr) : Clean (d :: tr) := by
  intro x hx
  rcases List.mem_cons.mp hx with rfl | hx
  · exact hd
  · exact h x hx

/-- The end of the stream is a read that failed. -/
theorem Closed.readFailed {d : Did Sock Sock.Reply} (h : Closed d) :
    ReadFailed d := by
  obtain ⟨a, r⟩ := d
  cases a with
  | read n => cases r <;> trivial
  | _ => exact h.elim

/-- A read that timed out is a read that failed. -/
theorem Stalled.readFailed {d : Did Sock Sock.Reply} (h : Stalled d) :
    ReadFailed d := by
  obtain ⟨a, r⟩ := d
  cases a with
  | read n => cases r <;> trivial
  | _ => exact h.elim

/-- No read is both. -/
theorem Closed.not_stalled {d : Did Sock Sock.Reply} (h : Closed d) :
    ¬ Stalled d := by
  intro hs
  obtain ⟨a, r⟩ := d
  cases a with
  | read n => cases r <;> first | exact hs.elim | exact h.elim
  | _ => exact h.elim

/-- A call that failed took nothing off the connection. -/
theorem Failed.input {d : Did Sock Sock.Reply} (h : Failed d) :
    input d = [] := by
  obtain ⟨a, r⟩ := d
  cases a with
  | read n => cases r <;> first | rfl | exact (h.elim id id).elim
  | _ => rfl

/-- Only reads and writes fail. -/
theorem Quiet.not_failed {d : Did Sock Sock.Reply} (h : Quiet d) :
    ¬ Failed d := by
  obtain ⟨a, r⟩ := d
  cases a with
  | read n => exact h.elim
  | write data => exact h.elim
  | _ => exact fun hf => hf.elim id id

section EndsIn

variable {P Q : Did Sock Sock.Reply → Prop} {t tr : Run}

/-- The call a run ends in may be told less of. -/
theorem EndsIn.mono (h : EndsIn P tr) (hpq : ∀ d, P d → Q d) :
    EndsIn Q tr := by
  obtain ⟨pre, a, hpre, ha, htr⟩ := h
  exact ⟨pre, a, hpre, hpq a ha, htr⟩

/-- Calls before it that did not fail. -/
theorem EndsIn.after (ht : Clean t) (h : EndsIn P tr) :
    EndsIn P (t ++ tr) := by
  obtain ⟨pre, a, hpre, ha, rfl⟩ := h
  exact ⟨t ++ pre, a, ht.append hpre, ha, (List.append_assoc t pre [a]).symm⟩

/-- A run of one call ends in it. -/
theorem EndsIn.single {d : Did Sock Sock.Reply} (h : P d) :
    EndsIn P [d] :=
  ⟨[], d, clean_nil, h, rfl⟩

/-- What a run ends in is its last call. -/
theorem EndsIn.last (h : EndsIn P tr) : LastCall P tr := by
  obtain ⟨pre, a, -, ha, htr⟩ := h
  exact ⟨pre, a, ha, htr⟩

/-- More before it changes nothing of that. -/
theorem LastCall.after (h : LastCall P tr) (t : Run) : LastCall P (t ++ tr) := by
  obtain ⟨pre, a, ha, rfl⟩ := h
  exact ⟨t ++ pre, a, ha, (List.append_assoc t pre [a]).symm⟩

end EndsIn

/-- A call found in a run of two parts is in one of them. -/
theorem mem_parts {t u pre post : Run} {a : Did Sock Sock.Reply}
    (h : t ++ u = pre ++ a :: post) :
    (∃ post', t = pre ++ a :: post' ∧ post = post' ++ u) ∨
      ∃ pre', pre = t ++ pre' ∧ u = pre' ++ a :: post := by
  rcases List.append_eq_append_iff.mp h with ⟨as, hpre, hu⟩ | ⟨bs, ht, hau⟩
  · exact .inr ⟨as, hpre, hu⟩
  · cases bs with
    | nil => exact .inr ⟨[], by simpa using ht.symm, hau.symm⟩
    | cons d bs =>
        obtain ⟨rfl, rfl⟩ := List.cons.inj hau
        exact .inl ⟨bs, ht, rfl⟩

/-- No call of a clean run has failed. -/
theorem Clean.not_split {tr pre post : Run} {a : Did Sock Sock.Reply}
    (h : Clean tr) (heq : tr = pre ++ a :: post) : ¬ Failed a :=
  h a (by rw [heq]; simp)

/-- Where a run ends in a failed call, that is the one that failed. -/
theorem EndsIn.split {P : Did Sock Sock.Reply → Prop} {tr pre post : Run}
    {a : Did Sock Sock.Reply} (h : EndsIn P tr)
    (heq : tr = pre ++ a :: post) (ha : Failed a) :
    P a ∧ post = [] ∧ Clean pre := by
  obtain ⟨pre', a', hpre, ha', htr⟩ := h
  rcases mem_parts (htr.symm.trans heq) with ⟨p, h1, -⟩ | ⟨p, rfl, h2⟩
  · exact absurd ha (hpre.not_split h1)
  · cases p with
    | nil =>
        obtain ⟨rfl, rfl⟩ := List.cons.inj h2
        exact ⟨ha', rfl, by rwa [List.append_nil]⟩
    | cons d p =>
        obtain ⟨-, h3⟩ := List.cons.inj h2
        cases p <;> cases h3

/-- Doing nothing moves no byte. -/
theorem mute_nil : Mute [] := by
  intro d hd
  cases hd

/-- A mute run reads nothing. -/
theorem Mute.readBytes {tr : Run} (h : Mute tr) : readBytes tr = [] := by
  induction tr with
  | nil => rfl
  | cons d tr ih =>
      have hd := h d (by simp)
      rw [readBytes_cons, ih fun x hx => h x (by simp [hx])]
      obtain ⟨a, r⟩ := d
      cases a with
      | read n => exact absurd trivial hd
      | _ => rfl

/-- The run of one such call. -/
theorem Quiet.run {d : Did Sock Sock.Reply} {tr : Run} (h : tr = [d])
    (hd : Quiet d) : readBytes tr = [] ∧ writtenBytes tr = [] ∧ Clean tr := by
  subst h
  refine ⟨?_, ?_, Clean.cons hd.not_failed clean_nil⟩
  · obtain ⟨a, r⟩ := d
    cases a with
    | read n => exact hd.elim
    | _ => rfl
  · obtain ⟨a, r⟩ := d
    cases a with
    | write data => exact hd.elim
    | _ => rfl

-- ============================================================== reading

/-- How `read_full` ends with `got` of `n` bytes read before. -/
inductive Reads (n : Nat) (got : List UInt8) (tr : Run) : Rd → Prop
  | ok (hlen : (got ++ readBytes tr).length = n) (hc : Clean tr) :
      Reads n got tr (.ok (got ++ readBytes tr))
  | eof (hgot : got = []) (hr : readBytes tr = []) (hend : EndsIn Closed tr) :
      Reads n got tr .eof
  | timeout (hgot : got = []) (hr : readBytes tr = [])
      (hend : EndsIn Stalled tr) : Reads n got tr .timeout
  | err (hlen : (got ++ readBytes tr).length < n)
      (hend : EndsIn ReadFailed tr)
      (hstall : (∃ d ∈ tr, Stalled d) → got ++ readBytes tr ≠ []) :
      Reads n got tr .err
  | spent (hlen : (got ++ readBytes tr).length < n) (hc : Clean tr) :
      Reads n got tr .spent

/-- One more chunk in front. -/
theorem Reads.after {n : Nat} {got : List UInt8} {d : Did Sock Sock.Reply}
    {tr : Run} {r : Rd} (hd : ¬ Failed d)
    (h : Reads n (got ++ input d) tr r) : Reads n got (d :: tr) r := by
  have hget : got ++ readBytes (d :: tr) = got ++ input d ++ readBytes tr := by
    rw [readBytes_cons, List.append_assoc]
  have hends : ∀ {P}, EndsIn P tr → EndsIn P (d :: tr) :=
    fun hend => hend.after (Clean.cons hd clean_nil)
  cases h with
  | ok hlen hc =>
      rw [← hget]
      exact .ok (by rw [hget]; exact hlen) (hc.cons hd)
  | eof hgot hr hend =>
      obtain ⟨rfl, hin⟩ := List.append_eq_nil_iff.mp hgot
      exact .eof rfl (by rw [readBytes_cons, hin, hr]; rfl) (hends hend)
  | timeout hgot hr hend =>
      obtain ⟨rfl, hin⟩ := List.append_eq_nil_iff.mp hgot
      exact .timeout rfl (by rw [readBytes_cons, hin, hr]; rfl) (hends hend)
  | err hlen hend hstall =>
      refine .err (by rw [hget]; exact hlen) (hends hend) fun hex => ?_
      obtain ⟨x, hx, hst⟩ := hex
      rw [hget]
      rcases List.mem_cons.mp hx with rfl | hx
      · exact absurd (.inl hst.readFailed) hd
      · exact hstall ⟨x, hx, hst⟩
  | spent hlen hc => exact .spent (by rw [hget]; exact hlen) (hc.cons hd)

/-- What a run of the loop of `read_full` is. -/
theorem readLoop_reads {n : Nat} :
    ∀ (fuel : Nat) (got : List UInt8) (tr : Run) (r : Rd),
      got.length ≤ n → Prog.Does (readLoop n fuel got) tr r →
      Reads n got tr r ∧ writtenBytes tr = [] := by
  have hdone : ∀ (fuel : Nat) (got : List UInt8) (tr : Run) (r : Rd),
      got.length ≤ n → n ≤ got.length →
      Prog.Does (readLoop n fuel got) tr r →
      Reads n got tr r ∧ writtenBytes tr = [] := by
    intro fuel got tr r hle hge h
    unfold readLoop at h
    rw [if_pos hge] at h
    obtain ⟨rfl, rfl⟩ := Prog.does_pure.mp h
    have : Reads n got [] (.ok (got ++ readBytes [])) :=
      .ok (by rw [readBytes_nil, List.append_nil]; omega) clean_nil
    rw [readBytes_nil, List.append_nil] at this
    exact ⟨this, rfl⟩
  intro fuel
  induction fuel with
  | zero =>
      intro got tr r hle h
      by_cases hge : n ≤ got.length
      · exact hdone 0 got tr r hle hge h
      · unfold readLoop at h
        rw [if_neg hge] at h
        obtain ⟨rfl, rfl⟩ := Prog.does_pure.mp h
        exact ⟨.spent (by simpa using hge) clean_nil, rfl⟩
  | succ fuel ih =>
      intro got tr r hle h
      by_cases hge : n ≤ got.length
      · exact hdone _ got tr r hle hge h
      have hlt : got.length < n := Nat.lt_of_not_le hge
      unfold readLoop at h
      rw [if_neg hge] at h
      obtain ⟨a, b, x, rfl, ha, hb⟩ := Prog.does_bind.mp h
      obtain rfl := Prog.does_perform.mp ha
      rw [List.singleton_append]
      -- a read that failed ends the loop, and brought nothing
      have hfail : ReadFailed ⟨Sock.read (n - got.length), x⟩ →
          (Stalled ⟨Sock.read (n - got.length), x⟩ → got ≠ []) →
          Reads n got [⟨Sock.read (n - got.length), x⟩] .err := by
        intro hx hst
        have hin : readBytes [⟨Sock.read (n - got.length), x⟩] = [] := by
          rw [readBytes_cons, Failed.input (.inl hx)]
          rfl
        refine .err ?_ (.single hx) fun hex => ?_
        · rwa [hin, List.append_nil]
        · obtain ⟨d, hd, hs⟩ := hex
          obtain rfl := List.mem_singleton.mp hd
          rw [hin, List.append_nil]
          exact hst hs
      cases x with
      | data bs hne hbs =>
          obtain ⟨hr, hw⟩ := ih (got ++ bs) b r
            (by rw [List.length_append]; omega) hb
          exact ⟨.after (fun hf => hf.elim id id) hr, by
            rw [writtenBytes_cons, hw]; rfl⟩
      | eintr =>
          obtain ⟨hr, hw⟩ := ih got b r hle hb
          refine ⟨.after (fun hf => hf.elim id id) ?_, by
            rw [writtenBytes_cons, hw]; rfl⟩
          rw [show input ⟨Sock.read (n - got.length), .eintr⟩ = [] from rfl,
            List.append_nil]
          exact hr
      | eof =>
          obtain ⟨rfl, rfl⟩ := Prog.does_pure.mp hb
          refine ⟨?_, rfl⟩
          split
          case isTrue hg => exact .eof hg rfl (.single trivial)
          case isFalse hg => exact hfail trivial fun _ => hg
      | eagain =>
          obtain ⟨rfl, rfl⟩ := Prog.does_pure.mp hb
          refine ⟨?_, rfl⟩
          split
          case isTrue hg => exact .timeout hg rfl (.single trivial)
          case isFalse hg => exact hfail trivial fun _ => hg
      | error =>
          obtain ⟨rfl, rfl⟩ := Prog.does_pure.mp hb
          exact ⟨hfail trivial fun hs => hs.elim, rfl⟩

/-- `read_full` of `n` bytes. -/
theorem readFull_reads {fuel n : Nat} {tr : Run} {r : Rd}
    (h : Prog.Does (readFull fuel n) tr r) :
    Reads n [] tr r ∧ writtenBytes tr = [] :=
  readLoop_reads fuel [] tr r (Nat.zero_le n) h

/-- `read_full` begins with a read. -/
theorem readFull_starts {fuel n : Nat} {tr : Run} {r : Rd} (hn : 0 < n)
    (h : Prog.Does (readFull fuel n) tr r) :
    tr = [] ∧ r = .spent ∨ ∃ d post, tr = d :: post ∧ IsRead d := by
  unfold readFull at h
  cases fuel with
  | zero =>
      unfold readLoop at h
      rw [if_neg (by rw [List.length_nil]; omega)] at h
      obtain ⟨rfl, rfl⟩ := Prog.does_pure.mp h
      exact .inl ⟨rfl, rfl⟩
  | succ fuel =>
      unfold readLoop at h
      rw [if_neg (by rw [List.length_nil]; omega)] at h
      obtain ⟨a, post, r', rfl, ha, -⟩ := Prog.does_bind.mp h
      obtain rfl := Prog.does_perform.mp ha
      exact .inr ⟨_, post, rfl, trivial⟩

-- ============================================================== writing

/-- How `write_full` ends with `data` to send. -/
structure Wrote (data : List UInt8) (tr : Run) (r : Io) : Prop where
  mute : Mute tr
  initial : writtenBytes tr <+: data
  all : r = .ok ↔ writtenBytes tr = data
  clean : r ≠ .err → Clean tr
  failed : r = .err → EndsIn WriteFailed tr

/-- The loop of `write_full`. -/
theorem writeLoop_wrote :
    ∀ (fuel : Nat) (data : List UInt8) (tr : Run) (r : Io),
      Prog.Does (writeLoop fuel data) tr r → Wrote data tr r := by
  have hnil : ∀ (fuel : Nat) (tr : Run) (r : Io),
      Prog.Does (writeLoop fuel []) tr r → Wrote [] tr r := by
    intro fuel tr r h
    unfold writeLoop at h
    rw [if_pos rfl] at h
    obtain ⟨rfl, rfl⟩ := Prog.does_pure.mp h
    exact ⟨mute_nil, List.prefix_rfl, by simp, fun _ => clean_nil, by simp⟩
  intro fuel
  induction fuel with
  | zero =>
      intro data tr r h
      by_cases hd : data = []
      · subst hd
        exact hnil 0 tr r h
      · unfold writeLoop at h
        rw [if_neg hd] at h
        obtain ⟨rfl, rfl⟩ := Prog.does_pure.mp h
        exact ⟨mute_nil, List.nil_prefix, by simpa using Ne.symm hd,
          fun _ => clean_nil, by simp⟩
  | succ fuel ih =>
      intro data tr r h
      by_cases hd : data = []
      · subst hd
        exact hnil _ tr r h
      unfold writeLoop at h
      rw [if_neg hd] at h
      obtain ⟨a, b, x, rfl, ha, hb⟩ := Prog.does_bind.mp h
      obtain rfl := Prog.does_perform.mp ha
      rw [List.singleton_append]
      have hmute : ∀ {t : Run}, Mute t →
          Mute (⟨Sock.write data, x⟩ :: t) := by
        intro t ht d hd
        rcases List.mem_cons.mp hd with rfl | hd
        · exact id
        · exact ht d hd
      -- a call that sent nothing and ended the loop
      have hlost : WriteFailed ⟨Sock.write data, x⟩ →
          output ⟨Sock.write data, x⟩ = [] →
          Wrote data [⟨Sock.write data, x⟩] .err := by
        intro hx ho
        refine ⟨hmute mute_nil, ?_, ?_, fun hr => absurd rfl hr,
          fun _ => .single hx⟩
        · rw [writtenBytes_cons, ho]
          exact List.nil_prefix
        · rw [writtenBytes_cons, ho]
          simp [Ne.symm hd]
      -- one that did not fail, and the rest of the loop
      have hgoes : ¬ Failed ⟨Sock.write data, x⟩ →
          (r ≠ .err → Clean b) → (r = .err → EndsIn WriteFailed b) →
          (r ≠ .err → Clean (⟨Sock.write data, x⟩ :: b)) ∧
            (r = .err → EndsIn WriteFailed (⟨Sock.write data, x⟩ :: b)) :=
        fun hx hc hf => ⟨fun hr => (hc hr).cons hx,
          fun hr => (hf hr).after (Clean.cons hx clean_nil)⟩
      cases x with
      | wrote k hpos hle =>
          obtain ⟨hm, hinit, hall, hc, hf⟩ := ih (data.drop k) b r hb
          have hw : writtenBytes (⟨Sock.write data, .wrote k hpos hle⟩ :: b)
              = data.take k ++ writtenBytes b := by
            rw [writtenBytes_cons]
            rfl
          obtain ⟨hc', hf'⟩ := hgoes (fun hx => hx.elim id id) hc hf
          refine ⟨hmute hm, ?_, ?_, hc', hf'⟩
          · rw [hw]
            obtain ⟨t, ht⟩ := hinit
            exact ⟨t, by rw [List.append_assoc, ht, List.take_append_drop]⟩
          · rw [hall, hw]
            constructor
            · intro he
              rw [he, List.take_append_drop]
            · intro he
              have := congrArg (List.drop k) he
              rwa [List.drop_left' (by rw [List.length_take]; omega)] at this
      | eintr =>
          obtain ⟨hm, hinit, hall, hc, hf⟩ := ih data b r hb
          obtain ⟨hc', hf'⟩ := hgoes (fun hx => hx.elim id id) hc hf
          exact ⟨hmute hm, hinit, hall, hc', hf'⟩
      | zero =>
          obtain ⟨rfl, rfl⟩ := Prog.does_pure.mp hb
          exact hlost trivial rfl
      | error =>
          obtain ⟨rfl, rfl⟩ := Prog.does_pure.mp hb
          exact hlost trivial rfl

/-- What `send_response` puts out. -/
theorem sendResponse_wrote {fuel body : Nat} {buf : List UInt8}
    {reqId status count : UInt32} {tr : Run} {x : List UInt8 × Io}
    (h : Prog.Does (sendResponse fuel buf reqId status count body) tr x) :
    x.1 = stores buf (headerStores reqId status count) ∧
      Wrote (response buf reqId status count body) tr x.2 := by
  unfold sendResponse at h
  obtain ⟨a, b, r, rfl, ha, hb⟩ := Prog.does_bind.mp h
  obtain ⟨rfl, rfl⟩ := Prog.does_pure.mp hb
  rw [List.append_nil]
  dsimp only
  refine ⟨rfl, ?_⟩
  unfold response
  unfold writeFull at ha
  exact writeLoop_wrote fuel _ a r ha

-- ============================================================= draining

/-- How `drain` ends. -/
inductive Drains (bytes : Nat) (tr : Run) : Io → Prop
  | ok (hlen : (readBytes tr).length = bytes) (hc : Clean tr) :
      Drains bytes tr .ok
  | err (hlen : (readBytes tr).length < bytes)
      (hend : EndsIn ReadFailed tr) : Drains bytes tr .err
  | spent (hlen : (readBytes tr).length < bytes) (hc : Clean tr) :
      Drains bytes tr .spent

/-- The loop of `drain`. -/
theorem drainLoop_drains {fuel : Nat} :
    ∀ (rounds bytes : Nat) (scratch : List UInt8) (tr : Run)
      (x : List UInt8 × Io), 0 < scratch.length →
      Prog.Does (drainLoop fuel rounds bytes scratch) tr x →
      Drains bytes tr x.2 ∧ x.1.length = scratch.length ∧
        writtenBytes tr = [] := by
  intro rounds
  induction rounds with
  | zero =>
      intro bytes scratch tr x hpos h
      unfold drainLoop at h
      split at h
      case isTrue hz =>
        obtain ⟨rfl, rfl⟩ := Prog.does_pure.mp h
        exact ⟨.ok hz.symm clean_nil, rfl, rfl⟩
      case isFalse hz =>
        obtain ⟨rfl, rfl⟩ := Prog.does_pure.mp h
        exact ⟨.spent (Nat.pos_of_ne_zero hz) clean_nil, rfl, rfl⟩
  | succ rounds ih =>
      intro bytes scratch tr x hpos h
      unfold drainLoop at h
      split at h
      case isTrue hz =>
        obtain ⟨rfl, rfl⟩ := Prog.does_pure.mp h
        exact ⟨.ok hz.symm clean_nil, rfl, rfl⟩
      case isFalse hz =>
        set n := if bytes < scratch.length then bytes else scratch.length
          with hn
        have hn' : 0 < n ∧ n ≤ bytes ∧ n ≤ scratch.length := by
          rw [hn]
          split <;> omega
        obtain ⟨a, b, r, rfl, ha, hb⟩ := Prog.does_bind.mp h
        obtain ⟨hr, hw⟩ := readFull_reads ha
        -- a read that failed ends the drain
        have hstop : ∀ io : Io, Prog.Does (pure (scratch, io) :
            Serving (List UInt8 × Io)) b x → b = [] ∧ x = (scratch, io) :=
          fun io hp => Prog.does_pure.mp hp
        cases hr with
        | ok hlen hc =>
            rw [List.nil_append] at hlen hb
            have hfit : (readBytes a).length ≤ scratch.length := by omega
            obtain ⟨hd, hl, hw'⟩ := ih _ _ _ _ (by
              rw [length_splice (by omega)]
              exact hpos) hb
            rw [length_splice (by omega)] at hl
            refine ⟨?_, hl, by rw [writtenBytes_append, hw, hw']; rfl⟩
            have hsum : ∀ m, m = bytes - n → (readBytes (a ++ b)).length
                = n + (readBytes b).length := by
              intro m _
              rw [readBytes_append, List.length_append, hlen]
            generalize x.2 = io at hd ⊢
            cases hd with
            | ok h hc' => exact .ok (by rw [hsum _ rfl, h]; omega) (hc.append hc')
            | err h hend =>
                exact .err (by rw [hsum _ rfl]; omega) (hend.after hc)
            | spent h hc' =>
                exact .spent (by rw [hsum _ rfl]; omega) (hc.append hc')
        | eof hgot hr hend =>
            obtain ⟨rfl, rfl⟩ := hstop _ hb
            rw [List.append_nil]
            exact ⟨.err (by rw [hr]; exact Nat.pos_of_ne_zero hz)
              (hend.mono fun _ => Closed.readFailed), rfl, hw⟩
        | timeout hgot hr hend =>
            obtain ⟨rfl, rfl⟩ := hstop _ hb
            rw [List.append_nil]
            exact ⟨.err (by rw [hr]; exact Nat.pos_of_ne_zero hz)
              (hend.mono fun _ => Stalled.readFailed), rfl, hw⟩
        | err hlen hend hstall =>
            obtain ⟨rfl, rfl⟩ := hstop _ hb
            rw [List.nil_append] at hlen
            rw [List.append_nil]
            exact ⟨.err (by omega) hend, rfl, hw⟩
        | spent hlen hc =>
            obtain ⟨rfl, rfl⟩ := hstop _ hb
            rw [List.nil_append] at hlen
            rw [List.append_nil]
            exact ⟨.spent (by omega) hc, rfl, hw⟩

end PleRowServer.Daemon
