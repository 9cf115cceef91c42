/-
A connection from its first byte on. The bytes that arrive are cut into
requests where their headers say they end (`requests`); the server acts
on exactly these, in order, and answers each once, up to the first it
cannot frame, finish reading or finish answering.

`Session` is that statement about one run: the exchanges completed, what
was read and written past them, and what became of every call that
failed. Its proof is an induction on the rounds of the loop; each round
completes one exchange, waits out a timeout, or ends the session.
-/
import PleRowServer.Daemon.Rounds

namespace PleRowServer.Daemon

open Base Wire

variable {s : Server} {b : Buffers} {fuel : Nat} {tr : Run} {stop : Stop}

-- =============================================================== parsing

instance (req : List UInt8) : Decidable (Known req) :=
  inferInstanceAs (Decidable (_ ∧ _))

instance (s : Server) (req : List UInt8) : Decidable (Overlong s req) :=
  inferInstanceAs (Decidable ((_ ∨ _) ∧ _))

/-- Bytes of the request a stream begins with, by its header. -/
def span (bs : List UInt8) : Nat := HEADER + 4 * countOf bs

/-- The requests at the front of a stream. -/
def requestsFrom (s : Server) : Nat → List UInt8 → List (List UInt8)
  | 0, _ => []
  | n + 1, bs =>
      if HEADER ≤ bs.length ∧ Known bs ∧ ¬ Overlong s bs ∧
          span bs ≤ bs.length then
        bs.take (span bs) :: requestsFrom s n (bs.drop (span bs))
      else []

/-- The requests a stream consists of, up to the first the server does
not frame or that is not all there. -/
def requests (s : Server) (bs : List UInt8) : List (List UInt8) :=
  requestsFrom s bs.length bs

/-- One request taken off the front. -/
theorem requestsFrom_cons {req rest : List UInt8} (h : Admits s req)
    {n : Nat} : requestsFrom s (n + 1) (req ++ rest)
      = req :: requestsFrom s n rest := by
  obtain ⟨⟨hlen, hspan⟩, hknown, hfits⟩ := h
  have hcount := countOf_append rest hlen
  have hs : span (req ++ rest) = req.length := by
    unfold span
    rw [hcount, hspan]
  show (if _ then _ else _) = _
  rw [if_pos ⟨by rw [List.length_append]; omega,
    (known_append rest hlen).mpr hknown, mt (overlong_append rest hlen).mp hfits,
    by rw [hs, List.length_append]; omega⟩, hs, List.take_left, List.drop_left]

/-- Nothing the server acts on at the front of a stream. -/
theorem requestsFrom_stop {bs : List UInt8} (h : ¬ (HEADER ≤ bs.length ∧
    Known bs ∧ ¬ Overlong s bs ∧ span bs ≤ bs.length)) (n : Nat) :
    requestsFrom s n bs = [] := by
  cases n with
  | zero => rfl
  | succ n => exact if_neg h

/-- Every round but the last takes a header, so the length of the stream
is rounds enough. -/
theorem requestsFrom_enough : ∀ (n m : Nat) (bs : List UInt8),
    bs.length ≤ n → bs.length ≤ m →
    requestsFrom s n bs = requestsFrom s m bs := by
  intro n
  induction n with
  | zero =>
      intro m bs hn _
      have hno : ¬ (HEADER ≤ bs.length ∧ Known bs ∧ ¬ Overlong s bs ∧
          span bs ≤ bs.length) := by
        unfold HEADER
        omega
      rw [requestsFrom_stop hno, requestsFrom_stop hno]
  | succ n ih =>
      intro m bs hn hm
      by_cases hc : HEADER ≤ bs.length ∧ Known bs ∧ ¬ Overlong s bs ∧
          span bs ≤ bs.length
      · have hlen : HEADER ≤ bs.length := hc.1
        have hdrop : (bs.drop (span bs)).length + HEADER ≤ bs.length := by
          have hle := hc.2.2.2
          rw [List.length_drop]
          unfold span HEADER at *
          omega
        cases m with
        | zero =>
            unfold HEADER at hlen
            omega
        | succ m =>
            show (if _ then _ else _) = (if _ then _ else _)
            rw [if_pos hc, if_pos hc]
            unfold HEADER at hdrop
            rw [ih m _ (by omega) (by omega)]
      · rw [requestsFrom_stop hc, requestsFrom_stop hc]

/-- Requests the server acts on, and what follows them. -/
theorem requests_append {rest : List UInt8} :
    ∀ xs : List (List UInt8), (∀ x ∈ xs, Admits s x) →
      requests s (xs.flatten ++ rest) = xs ++ requests s rest := by
  intro xs
  induction xs with
  | nil => intro _; rfl
  | cons x xs ih =>
      intro h
      have hx := h x (by simp)
      have hpos : HEADER ≤ x.length := hx.whole.1
      rw [List.flatten_cons, List.append_assoc, List.cons_append,
        ← ih fun y hy => h y (by simp [hy])]
      unfold requests
      generalize hbs : xs.flatten ++ rest = bs
      have hlen : (x ++ bs).length = x.length - 1 + bs.length + 1 := by
        unfold HEADER at hpos
        rw [List.length_append]
        omega
      rw [hlen, requestsFrom_cons hx,
        requestsFrom_enough _ bs.length bs (by omega) le_rfl]

/-- One request and what follows it. -/
theorem requests_single {req : List UInt8} (h : Admits s req)
    (more : List UInt8) : requests s (req ++ more) = req :: requests s more := by
  have : requests s ([req].flatten ++ more) = [req] ++ requests s more :=
    requests_append [req] (by simpa using h)
  simpa using this

/-- What is taken off the front is there, and whole. -/
theorem requestsFrom_spec : ∀ (n : Nat) (bs : List UInt8),
    (∀ req ∈ requestsFrom s n bs, Admits s req) ∧
      (requestsFrom s n bs).flatten <+: bs := by
  intro n
  induction n with
  | zero =>
      intro bs
      exact ⟨by simp [requestsFrom], List.nil_prefix⟩
  | succ n ih =>
      intro bs
      unfold requestsFrom
      split
      case isFalse => exact ⟨by simp, List.nil_prefix⟩
      case isTrue hc =>
        obtain ⟨hlen, hknown, hfits, hspan⟩ := hc
        obtain ⟨hadm, hinit⟩ := ih (bs.drop (span bs))
        have htake : (bs.take (span bs)).length = span bs := by
          rw [List.length_take]
          omega
        have hhdr : HEADER ≤ (bs.take (span bs)).length := by
          rw [htake]
          exact Nat.le_add_right _ _
        have hcount := countOf_append (bs.drop (span bs)) hhdr
        have hk := known_append (bs.drop (span bs)) hhdr
        have ho := overlong_append (s := s) (bs.drop (span bs)) hhdr
        rw [List.take_append_drop] at hcount hk ho
        refine ⟨fun req hreq => ?_, ?_⟩
        · rcases List.mem_cons.mp hreq with rfl | hreq
          · refine ⟨⟨hhdr, ?_⟩, hk.mp hknown, mt ho.mpr hfits⟩
            rw [htake, ← hcount]
            rfl
          · exact hadm req hreq
        · obtain ⟨rest, hrest⟩ := hinit
          refine ⟨rest, ?_⟩
          rw [List.flatten_cons, List.append_assoc, hrest,
            List.take_append_drop]

theorem requests_admits {bs req : List UInt8} (h : req ∈ requests s bs) :
    Admits s req := (requestsFrom_spec bs.length bs).1 req h

theorem requests_initial (bs : List UInt8) : (requests s bs).flatten <+: bs :=
  (requestsFrom_spec bs.length bs).2

/-- Bytes that come later never change the requests before them. -/
theorem requests_mono (bs more : List UInt8) :
    requests s bs <+: requests s (bs ++ more) := by
  obtain ⟨rest, hrest⟩ := requests_initial (s := s) bs
  have happ : requests s ((requests s bs).flatten ++ (rest ++ more)) = _ :=
    requests_append (requests s bs) fun x hx => requests_admits hx
  rw [← List.append_assoc, hrest] at happ
  exact ⟨_, happ.symm⟩

/-- A request acted on that was not answered to its end. -/
def Unanswered (s : Server) (req rest : List UInt8) : Prop :=
  Admits s req ∧ ∃ f, rest <+: answerTo s f req ∧ rest ≠ answerTo s f req

/-- Of what is left of the stream at most one request was acted on, and
it was not answered to its end. -/
theorem Ending.requests {tail rest : List UInt8}
    (h : Ending s tr stop tail rest) : requests s tail = [] ∨
      requests s tail = [tail] ∧ Unanswered s tail rest := by
  have hstop : ¬ (HEADER ≤ tail.length ∧ Known tail ∧ ¬ Overlong s tail ∧
      span tail ≤ tail.length) → Daemon.requests s tail = [] :=
    fun hno => requestsFrom_stop hno _
  cases h with
  | eof => exact .inl rfl
  | begun _ hlen => exact .inl (hstop fun hc => absurd hc.1 (by omega))
  | short _ _ _ _ hlen =>
      exact .inl (hstop fun hc => absurd hc.2.2.2 (by unfold span; omega))
  | undrained _ _ _ _ hlen _ =>
      exact .inl (hstop fun hc => absurd hc.2.2.2 (by unfold span; omega))
  | overlong _ _ hover _ _ => exact .inl (hstop fun hc => hc.2.2.1 hover)
  | unknown _ hunknown _ _ => exact .inl (hstop fun hc => hunknown hc.2.1)
  | unwritten _ hadm hrest hne =>
      have := requests_single hadm []
      rw [List.append_nil] at this
      exact .inr ⟨this, hadm, _, hrest, hne⟩

/-- Where the server gave up on the framing, no later byte brings a
request. -/
theorem Ending.lost {tail rest : List UInt8}
    (h : Ending s tr stop tail rest)
    (hlost : stop = .badHeader ∨ Overlong s tail ∧ HEADER ≤ tail.length)
    (more : List UInt8) : Daemon.requests s (tail ++ more) = [] := by
  refine requestsFrom_stop (fun hc => ?_) _
  rcases hlost with rfl | ⟨hover, hlen⟩
  · cases h with
    | begun hwhy _ => rcases hwhy with h | ⟨h, -⟩ <;> cases h
    | short hwhy _ _ _ _ => rcases hwhy with h | ⟨h, -⟩ <;> cases h
    | undrained hwhy _ _ _ _ _ => rcases hwhy with h | ⟨h, -⟩ <;> cases h
    | overlong hwhy _ _ _ _ => rcases hwhy with h | ⟨h, -⟩ <;> cases h
    | unknown _ hunknown hhdr _ =>
        exact hunknown ((known_append more hhdr.ge).mp hc.2.1)
    | unwritten hwhy _ _ _ => rcases hwhy with h | ⟨h, -⟩ <;> cases h
  · exact hc.2.2.1 ((overlong_append more hlen).mpr hover)

-- ============================================================== sessions

/-- How the loop goes on from between two requests. -/
def Resumes (post : Run) (stop : Stop) : Prop :=
  post = [] ∧ stop = .waiting ∨ ∃ d post', post = d :: post' ∧ IsRead d

/-- A timeout with every request so far answered: the loop reads on. -/
structure Between (xs : List Exchange) (pre post : Run) (stop : Stop) :
    Prop where
  boundary : ∃ ys, ys <+: xs ∧ readBytes pre = ys.flatMap Exchange.req ∧
    writtenBytes pre = ys.flatMap Exchange.ans
  resumes : Resumes post stop

/-- Any other call that failed: nothing is read after it, and it ends the
connection. A timeout is one only inside a request. -/
structure Fatal (xs : List Exchange) (tail : List UInt8) (pre : Run)
    (a : Did Sock Sock.Reply) (post : Run) (stop : Stop) : Prop where
  read : readBytes pre = xs.flatMap Exchange.req ++ tail
  begun : Stalled a → tail ≠ []
  halt : Halt a post stop

/-- One run of the request loop: the exchanges it completed, what it read
and wrote past them, and what became of each call that failed. -/
structure Session (s : Server) (tr : Run) (stop : Stop)
    (xs : List Exchange) (tail rest : List UInt8) : Prop where
  read : readBytes tr = xs.flatMap Exchange.req ++ tail
  written : writtenBytes tr = xs.flatMap Exchange.ans ++ rest
  handled : ∀ x ∈ xs, Admits s x.req ∧ ∃ f, x.ans = answerTo s f x.req
  ending : Ending s tr stop tail rest
  failures : ∀ pre a post, tr = pre ++ a :: post → Failed a →
    Stalled a ∧ Between xs pre post stop ∨ Fatal xs tail pre a post stop

/-- The session of a round that ended the loop. -/
theorem Session.last
    (hend : Ending s tr stop (readBytes tr) (writtenBytes tr))
    (hne : ∀ pre a post, tr = pre ++ a :: post → Stalled a →
      readBytes tr ≠ []) (hhalt : Halts tr stop) :
    Session s tr stop [] (readBytes tr) (writtenBytes tr) := by
  refine ⟨rfl, rfl, by simp, hend, ?_⟩
  intro pre a post heq ha
  have hhalt := hhalt pre a post heq ha
  refine .inr ⟨?_, hne pre a post heq, hhalt⟩
  rw [heq, readBytes_append, readBytes_cons, ha.input, hhalt.mute.readBytes]
  simp

section Prepend

variable {t : Run} {xs : List Exchange} {tail rest : List UInt8}

/-- A session with one exchange before it. -/
theorem Session.next {x : Exchange} (h : Session s tr stop xs tail rest)
    (hread : readBytes t = x.req) (hwrote : writtenBytes t = x.ans)
    (hc : Clean t) (hadm : Admits s x.req)
    (hans : ∃ f, x.ans = answerTo s f x.req) :
    Session s (t ++ tr) stop (x :: xs) tail rest := by
  refine ⟨?_, ?_, ?_, h.ending.after t, ?_⟩
  · rw [readBytes_append, hread, h.read, List.flatMap_cons, List.append_assoc]
  · rw [writtenBytes_append, hwrote, h.written, List.flatMap_cons,
      List.append_assoc]
  · intro y hy
    rcases List.mem_cons.mp hy with rfl | hy
    · exact ⟨hadm, hans⟩
    · exact h.handled y hy
  · intro pre a post heq ha
    rcases mem_parts heq with ⟨post', h1, -⟩ | ⟨pre', rfl, h2⟩
    · exact absurd ha (hc.not_split h1)
    rcases h.failures pre' a post h2 ha with ⟨hst, hb⟩ | hf
    · obtain ⟨⟨ys, hys, hr, hw⟩, hres⟩ := hb
      refine .inl ⟨hst,
        ⟨x :: ys, (List.prefix_cons_inj x).mpr hys, ?_, ?_⟩, hres⟩
      · rw [readBytes_append, hread, hr, List.flatMap_cons]
      · rw [writtenBytes_append, hwrote, hw, List.flatMap_cons]
    · refine .inr ⟨?_, hf.begun, hf.halt⟩
      rw [readBytes_append, hread, hf.read, List.flatMap_cons,
        List.append_assoc]

/-- A session with a timeout before it. -/
theorem Session.idle (h : Session s tr stop xs tail rest)
    (hread : readBytes t = []) (hwrote : writtenBytes t = [])
    (hres : Resumes tr stop) (ht : EndsIn Stalled t) :
    Session s (t ++ tr) stop xs tail rest := by
  refine ⟨?_, ?_, h.handled, h.ending.after t, ?_⟩
  · rw [readBytes_append, hread, h.read, List.nil_append]
  · rw [writtenBytes_append, hwrote, h.written, List.nil_append]
  intro pre a post heq ha
  rcases mem_parts heq with ⟨post', h1, rfl⟩ | ⟨pre', rfl, h2⟩
  · -- the timeout itself
    obtain ⟨hst, rfl, -⟩ := ht.split h1 ha
    rw [h1, readBytes_append] at hread
    rw [h1, writtenBytes_append] at hwrote
    refine .inl ⟨hst, ⟨[], List.nil_prefix, ?_, ?_⟩, hres⟩
    · exact (List.append_eq_nil_iff.mp hread).1
    · exact (List.append_eq_nil_iff.mp hwrote).1
  · rcases h.failures pre' a post h2 ha with ⟨hst, hb⟩ | hf
    · obtain ⟨⟨ys, hys, hr, hw⟩, hres'⟩ := hb
      refine .inl ⟨hst, ⟨ys, hys, ?_, ?_⟩, hres'⟩
      · rw [readBytes_append, hread, hr, List.nil_append]
      · rw [writtenBytes_append, hwrote, hw, List.nil_append]
    · refine .inr ⟨?_, hf.begun, hf.halt⟩
      rw [readBytes_append, hread, hf.read, List.nil_append]

end Prepend

-- ============================================================== the loop

/-- The loop begins with a read. -/
theorem serveLoop_starts {rounds : Nat}
    (h : Prog.Does (serveLoop s fuel rounds b) tr stop) : Resumes tr stop := by
  cases rounds with
  | zero =>
      obtain ⟨rfl, rfl⟩ := Prog.does_pure.mp h
      exact .inl ⟨rfl, rfl⟩
  | succ rounds =>
      unfold serveLoop at h
      obtain ⟨a, t, r, rfl, ha, ht⟩ := Prog.does_bind.mp h
      rcases readFull_starts (by decide) ha with ⟨rfl, rfl⟩ | ⟨d, post, rfl, hd⟩
      · obtain ⟨rfl, rfl⟩ := Prog.does_pure.mp ht
        exact .inl ⟨rfl, rfl⟩
      · exact .inr ⟨d, post ++ t, rfl, hd⟩

/-- Every run of the loop is a session. -/
theorem serveLoop_session (hr : Ranged s) : ∀ (rounds : Nat) (b : Buffers)
    (tr : Run) (stop : Stop), Sized s b →
    Prog.Does (serveLoop s fuel rounds b) tr stop →
    ∃ xs tail rest, Session s tr stop xs tail rest := by
  intro rounds
  induction rounds with
  | zero =>
      intro b tr stop _ h
      obtain ⟨rfl, rfl⟩ := Prog.does_pure.mp h
      exact ⟨_, _, _, .last (.begun (.inl rfl) (by decide))
        (fun pre a post heq _ => by simp at heq) (clean_nil.halts _)⟩
  | succ rounds ih =>
      intro b tr stop hb h
      unfold serveLoop at h
      obtain ⟨a, t, r, rfl, ha, ht⟩ := Prog.does_bind.mp h
      obtain ⟨hreads, hw⟩ := readFull_reads ha
      cases hreads with
      | ok hlen hc =>
          rw [List.nil_append] at hlen ht
          obtain ⟨t₁, t₂, nx, rfl, h₁, h₂⟩ := Prog.does_bind.mp ht
          have hread : readBytes (a ++ t₁) = readBytes a ++ readBytes t₁ :=
            readBytes_append a t₁
          have hwrote : writtenBytes (a ++ t₁) = writtenBytes t₁ := by
            rw [writtenBytes_append, hw]
            rfl
          have hhdr : readBytes a ≠ [] := by
            intro h0
            rw [h0] at hlen
            cases hlen
          rw [← List.append_assoc]
          have hh := serveHeader_handles hr hb (parseHeader_parsed hlen) h₁
          cases hh with
          | go hresp hids hadm hans hc' =>
              obtain ⟨xs, tail, rest, hs⟩ := ih _ _ _ ⟨hresp, hids⟩ h₂
              exact ⟨⟨_, _⟩ :: xs, tail, rest, hs.next hread
                (hwrote.trans hans) (hc.append hc') hadm ⟨_, rfl⟩⟩
          | stop hend hhalt =>
              obtain ⟨rfl, rfl⟩ := Prog.does_pure.mp h₂
              rw [List.append_nil]
              refine ⟨_, _, _, .last ?_ (fun _ _ _ _ _ => ?_)
                (hhalt.after hc)⟩
              · rw [hread, hwrote]
                exact hend.after a
              · rw [hread]
                exact List.append_ne_nil_of_left_ne_nil hhdr _
      | eof hgot hread hend =>
          obtain ⟨rfl, rfl⟩ := Prog.does_pure.mp ht
          rw [List.append_nil]
          refine ⟨_, _, _, .last ?_ (fun pre d post heq hst => ?_)
            (hend.halts fun d hd => .closed hd rfl)⟩
          · rw [hread, hw]
            exact .eof hend.last
          · have hclosed := (hend.split heq (.inl hst.readFailed)).1
            exact absurd hst hclosed.not_stalled
      | timeout hgot hread hend =>
          obtain ⟨xs, tail, rest, hs⟩ := ih _ _ _ hb ht
          exact ⟨xs, tail, rest, hs.idle hread hw (serveLoop_starts ht) hend⟩
      | err hlen hend hstall =>
          obtain ⟨rfl, rfl⟩ := Prog.does_pure.mp ht
          rw [List.append_nil]
          refine ⟨_, _, _, .last ?_ (fun pre d post heq hst => ?_)
            (hend.halts fun d hd => .cut hd rfl)⟩
          · rw [hw]
            exact .begun (.inr ⟨rfl, hend.last⟩) hlen
          · exact hstall ⟨d, by rw [heq]; simp, hst⟩
      | spent hlen hc =>
          obtain ⟨rfl, rfl⟩ := Prog.does_pure.mp ht
          rw [List.append_nil]
          refine ⟨_, _, _, .last ?_ (fun pre d post heq hst => ?_)
            (hc.halts _)⟩
          · rw [hw]
            exact .begun (.inl rfl) hlen
          · exact absurd (.inl hst.readFailed) (hc.not_split heq)

-- ============================================================= framing

/-- On a connection with both buffers the server acts on exactly the
requests its stream parses into, answers each once and in order with one
complete response, and stops at the first it cannot frame, finish
reading or finish answering. It ends for no other reason: with each way
to end goes a call that failed, or a header it gives up on; timeouts end
it inside a request only. -/
theorem serve_framed {opts : List Opt} {host : Host} {s : Server}
    (h : accepts opts host = .ok s) {b : Buffers}
    (hresp : b.resp.length = (respSize s).toNat)
    (hids : b.ids.length = (idsSize s).toNat) {fuel : Nat} {tr : Run}
    {stop : Stop} (hrun : Prog.Does (serveConn s fuel (some b)) tr stop) :
    ∃ xs tail rest, Session s tr stop xs tail rest ∧
      (∀ x ∈ xs, WholeAnswer ROW_BYTES x.req x.ans) ∧
      requests s (readBytes tr)
        = xs.map Exchange.req ++ requests s tail ∧
      (requests s tail = [] ∨
        requests s tail = [tail] ∧ Unanswered s tail rest) ∧
      (∀ more, requests s (readBytes tr)
        <+: requests s (readBytes tr ++ more)) ∧
      (stop = .badHeader ∨ Overlong s tail ∧ HEADER ≤ tail.length →
        ∀ more, requests s (readBytes tr ++ more) = xs.map Exchange.req) ∧
      (stop = .waiting → fuel ≤ tr.length) := by
  obtain ⟨hr, -⟩ := accepts_ranged h
  have hb : Sized s b := ⟨hresp, hids⟩
  obtain ⟨xs, tail, rest, hs⟩ := serveLoop_session hr fuel b tr stop hb hrun
  have hparse : ∀ more, requests s (readBytes tr ++ more)
      = xs.map Exchange.req ++ requests s (tail ++ more) := by
    intro more
    rw [hs.read, List.append_assoc, List.flatMap_def]
    refine requests_append _ fun req hreq => ?_
    obtain ⟨x, hx, rfl⟩ := List.mem_map.mp hreq
    exact (hs.handled x hx).1
  have hread := hparse []
  rw [List.append_nil, List.append_nil] at hread
  refine ⟨xs, tail, rest, hs, ?_, hread, hs.ending.requests, ?_, ?_, ?_⟩
  · intro x hx
    obtain ⟨-, f, hans⟩ := hs.handled x hx
    rw [hans]
    exact answerTo_whole hr f x.req
  · exact fun more => requests_mono (readBytes tr) more
  · intro hlost more
    rw [hparse, hs.ending.lost hlost more, List.append_nil]
  · exact fun hw => serveConn_spends hr hb tr stop hrun hw

/-- A GATHER of row 5, with id 9. -/
def gatherFive : List UInt8 :=
  [0x50, 0x4C, 0x45, 0x52, 1, 1, 0, 0, 9, 0, 0, 0, 1, 0, 0, 0, 5, 0, 0, 0]

/-- A read that hands over these bytes. -/
def handing (n : Nat) (bs : List UInt8) : ReadAnswer n :=
  if h : bs ≠ [] ∧ bs.length ≤ n then .data bs h.1 h.2 else .error

/-- A write that takes `k` bytes. -/
def taking (k n : Nat) : WriteAnswer n :=
  if h : 0 < k ∧ k ≤ n then .wrote k h.1 h.2 else .error

/-- A peer that sends the GATHER and takes the reply in two pieces, is
quiet for a while, and closes within its next header. -/
def breakingOff : Nat → ∀ a : Sock, a.Reply
  | 0, .read n => handing n (gatherFive.take 16)
  | 2, .read n => handing n (gatherFive.drop 16)
  | 5, .read _ => .eagain
  | 6, .read n => handing n (gatherFive.take 8)
  | _, .read _ => .eof
  | 3, .write data => taking 100 data.length
  | _, .write data => taking data.length data.length
  | _, .count => ()
  | _, .served => (0 : UInt64)
  | _, .resident => (0 : UInt64)
  | _, .recharge _ => (ST_BUSY, Facts.unseen.report)

/-- Three rounds with that peer. -/
def brokenOff : Run × Stop :=
  (serveConn oneRowServer 3 (some ⟨List.replicate 336 0,
    List.replicate 8 0⟩)).runFrom breakingOff 0

set_option maxRecDepth 4000 in
theorem serve_framed_brokenOff :
    brokenOff.2 = .cut ∧
      readBytes brokenOff.1 = gatherFive ++ gatherFive.take 8 ∧
      requests oneRowServer (readBytes brokenOff.1) = [gatherFive] ∧
      ∃ xs tail rest, Session oneRowServer brokenOff.1 .cut xs tail rest ∧
        (∀ x ∈ xs, WholeAnswer ROW_BYTES x.req x.ans) ∧
        [gatherFive] = xs.map Exchange.req ++ requests oneRowServer tail ∧
        (requests oneRowServer tail = [] ∨
          requests oneRowServer tail = [tail] ∧
            Unanswered oneRowServer tail rest) ∧
        (∀ more, [gatherFive]
          <+: requests oneRowServer (readBytes brokenOff.1 ++ more)) ∧
        (Stop.cut = .badHeader ∨ Overlong oneRowServer tail ∧
          HEADER ≤ tail.length → ∀ more,
          requests oneRowServer (readBytes brokenOff.1 ++ more)
            = xs.map Exchange.req) ∧
        (Stop.cut = .waiting → 3 ≤ brokenOff.1.length) := by
  have haccepts : accepts oneRowOpts oneRow = .ok oneRowServer := rfl
  have hcut : brokenOff.2 = .cut := by decide +kernel
  have hread : readBytes brokenOff.1 = gatherFive ++ gatherFive.take 8 := by
    decide +kernel
  have hreq : requests oneRowServer (readBytes brokenOff.1) = [gatherFive] := by
    rw [hread]
    decide +kernel
  have hrun := Prog.does_runFrom breakingOff
    (serveConn oneRowServer 3 (some ⟨List.replicate 336 0,
      List.replicate 8 0⟩)) 0
  have hframed := serve_framed haccepts
    (b := ⟨List.replicate 336 0, List.replicate 8 0⟩) (by
      rw [List.length_replicate]
      rfl) (by
      rw [List.length_replicate]
      rfl) hrun
  refine ⟨hcut, hread, hreq, ?_⟩
  rw [← hcut, ← hreq]
  exact hframed

end PleRowServer.Daemon
