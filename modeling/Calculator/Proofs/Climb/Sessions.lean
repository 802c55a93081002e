import Calculator.Proofs.Climb.Bounded
import Calculator.Proofs.Climb.Comparison
import Calculator.Proofs.Grammar.Registry
import Calculator.Proofs.Token.View
import Calculator.Session

/-!
# Sessions as a plain feed

A parser keeps a buffer of its own, a lexer goes on from its cursor, and requests to both come in
any order.  To whoever makes the requests all this is one row of results: those of the buffer, which
direct pulls do not see, and the lexer's behind them.  The buffer holds one token at most, and
behind a whole expression it holds the ending token.

* `Feed`                   a row of results, the first ones held back from direct pulls;
* `Feed.Step`, `Feed.Run`  what a request does to a row, and a list of requests;
* `Stream.feed`            a stream as such a row;
* `Stream.Tidy ends s`     one token waits at most, and `ends` knows it if it is of the ending kind;
* `Stream.Tidy.reads`      looking and taking keep this;
* `Setting.reads`          a parse does nothing else to a stream;
* `Session.step_refines`   one request is one step, and leaves a tidy stream;
* `Session.run_refines`    all requests in turn;
* `session_refines_feed`   a session from its start, and the streams inside of its requests.
-/

namespace Calculator

/-! ## the row -/

/-- a row of results of which direct pulls do not see the first ones -/
structure Feed where
  held : Nat
  row : Nat → Except Error Token

/-- the waiting tokens are held -/
def Stream.feed (s : Stream) : Feed := ⟨s.waiting.length, s.view⟩

namespace Feed

/-- the row without its first results -/
def drop (p : Feed) (n : Nat) : Nat → Except Error Token := fun i => p.row (i + n)

/-- the row without some results behind those that are held -/
def skip (p : Feed) (n : Nat) : Nat → Except Error Token :=
  fun i => if i < p.held then p.row i else p.row (i + n)

/-- what a request may answer and do to a row; `ends` tells the ending tokens that there can be -/
inductive Step (ends : Token → Prop) (p : Feed) : Request → Reply → Feed → Prop where
  /-- the first result that is not held, taken away -/
  | next : Step ends p .next (.token (p.row p.held)) ⟨p.held, p.skip 1⟩
  | pull (n : Nat) : Step ends p (.pull n)
      (.tokens ((List.range n).map fun i => p.row (p.held + i))) ⟨p.held, p.skip n⟩
  /-- what is held is dropped -/
  | reset : Step ends p .reset .accepted ⟨0, p.drop p.held⟩
  /-- the first result is a token of the kind, taken away -/
  | consumed {t : Token} : p.row 0 = .ok t →
      Step ends p (.consume t.kind) (.token (.ok t)) ⟨0, p.drop 1⟩
  /-- it is a token of another kind, which stays -/
  | unexpected {t : Token} {k : Kind} : p.row 0 = .ok t → t.kind ≠ k →
      Step ends p (.consume k)
        (.token (.error ⟨.unexpectedToken k.name t.lexeme, t.position⟩)) ⟨1, p.row⟩
  /-- it is an error, given back and taken away -/
  | spoiled {e : Error} {k : Kind} : p.row 0 = .error e →
      Step ends p (.consume k) (.token (.error e)) ⟨0, p.drop 1⟩
  | found {t : Token} : p.row 0 = .ok t →
      Step ends p (.accept t.kind) (.found true) ⟨0, p.drop 1⟩
  | missed {t : Token} {k : Kind} : p.row 0 = .ok t → t.kind ≠ k →
      Step ends p (.accept k) (.found false) ⟨1, p.row⟩
  | refused {e : Error} {k : Kind} : p.row 0 = .error e →
      Step ends p (.accept k) (.refused e) ⟨0, p.drop 1⟩
  /-- a whole expression: of the row is left what starts with the ending token, which is held -/
  | parsed {radix n : Nat} {e : Expr} {t : Token} : p.row n = .ok t → ends t →
      Step ends p (.parse radix) (.expression e) ⟨1, p.drop n⟩
  /-- no expression: of the row is left what stands behind some results -/
  | unparsed {radix n held : Nat} {e : Error} : held ≤ 1 →
      Step ends p (.parse radix) (.unparsed e) ⟨held, p.drop n⟩
  | parsedAt {m : Int} {radix n held : Nat} {e : Expr} : held ≤ 1 →
      Step ends p (.parseAt m radix) (.expression e) ⟨held, p.drop n⟩
  | unparsedAt {m : Int} {radix n held : Nat} {e : Error} : held ≤ 1 →
      Step ends p (.parseAt m radix) (.unparsed e) ⟨held, p.drop n⟩
  | source (text : List Char) : Step ends p .source (.text text) p
  | radix (n : Nat) : Step ends p .radix (.number n) p
  /-- another source changes what is not held -/
  | setSource {text : List Char} {row : Nat → Except Error Token} :
      (∀ i < p.held, row i = p.row i) → Step ends p (.setSource text) .accepted ⟨p.held, row⟩
  | setRadix {n : Nat} {row : Nat → Except Error Token} :
      (∀ i < p.held, row i = p.row i) → Step ends p (.setRadix n) .accepted ⟨p.held, row⟩
  | noRadix {n : Nat} (e : Error) : Step ends p (.setRadix n) (.refused e) p

/-- requests in turn, each with its answer and the row behind it -/
inductive Run (ends : Token → Prop) : Feed → List Request → List (Reply × Feed) → Prop where
  | nil {p : Feed} : Run ends p [] []
  | cons {p p' : Feed} {r : Request} {reply : Reply} {rs : List Request}
      {answers : List (Reply × Feed)} : p.Step ends r reply p' → Run ends p' rs answers →
      Run ends p (r :: rs) ((reply, p') :: answers)

end Feed

/-! ## tidy streams -/

namespace Stream

/-- one token waits at most, one of the ending kind is known to `ends`, and so is the one that the
lexer is going to give -/
structure Tidy (ends : Token → Prop) (s : Stream) : Prop where
  held : s.waiting.length ≤ 1
  waiting : ∀ t ∈ s.waiting, t.isEnding = true → ends t
  words : s.lexer.rules.nameKind ≠ Kind.ending
  cursor : s.lexer.cursor ≤ s.lexer.source.length
  ending : ends (Lexer.endingAt s.lexer.source.length)

namespace Tidy

variable {ends : Token → Prop} {s : Stream} (h : s.Tidy ends)
include h

theorem tail_eq_nil : s.waiting.tail = [] := by
  have := h.held
  rw [← List.length_eq_zero_iff, List.length_tail]
  omega

theorem of_waiting {w : List Token} (hlen : w.length ≤ 1)
    (hw : ∀ t ∈ w, t.isEnding = true → ends t) : Tidy ends { s with waiting := w } :=
  ⟨hlen, hw, h.words, h.cursor, h.ending⟩

theorem after (n : Nat) : Tidy ends { s with lexer := s.lexer.after n } := by
  refine ⟨h.held, h.waiting, ?_, ?_, ?_⟩
  · rw [Lexer.after_rules]
    exact h.words
  · show (s.lexer.after n).cursor ≤ (s.lexer.after n).source.length
    rw [Lexer.after_source]
    exact s.lexer.after_cursor_le h.cursor n
  · rw [Lexer.after_source]
    exact h.ending

theorem ends_of_next {t : Token} (ht : s.lexer.next.1 = .ok t) (hend : t.isEnding = true) :
    ends t := by
  have hkind : t.kind = Kind.ending := of_decide_eq_true hend
  have hnext : s.lexer.next = (.ok t, s.lexer.next.2) := Prod.ext ht rfl
  rcases Lexer.next_ok h.cursor hnext with ⟨-, rfl, -⟩ | ⟨hname, -⟩ | ⟨hname, -⟩
  · exact h.ending
  · exact absurd (hname.symm.trans hkind) h.words
  · rw [hkind] at hname
    exact absurd rfl hname

theorem read {s' : Stream} (hread : s.Read s') : s'.Tidy ends := by
  have hnone : ∀ t ∈ ([] : List Token), t.isEnding = true → ends t := fun t ht => nomatch ht
  rcases hread.cases with rfl | rfl | ⟨-, rfl⟩ | ⟨-, t, ht, rfl⟩
  · exact h
  · rw [h.tail_eq_nil]
    exact h.of_waiting (Nat.zero_le 1) hnone
  · exact (h.after 1).of_waiting (Nat.zero_le 1) hnone
  · refine (h.after 1).of_waiting (Nat.le_refl 1) fun u hu hend => ?_
    rw [List.mem_singleton.mp hu] at hend ⊢
    exact h.ends_of_next ht hend

theorem reads {s' : Stream} (hreads : s.Reads s') : s'.Tidy ends :=
  hreads.keeps (fun _ _ hs hread => hs.read hread) h

end Tidy
end Stream

/-- a parse changes a stream by looking and taking alone -/
theorem Setting.reads (σ : Setting) (s : Stream) :
    (∀ m, ∀ s' ∈ (σ.parseFrom m s).after?, s.Reads s') ∧ ∀ s' ∈ (σ.parse s).after?, s.Reads s' :=
  σ.run_keeps (I := s.Reads) (fun _ hs _ h => hs.tail (.inl h)) (fun _ hs _ h => hs.tail (.inr h))
    .refl

theorem Setting.ending_of_parse {σ : Setting} {s after : Stream} {e : Expr}
    (h : σ.parse s = .done e after) :
    ∃ t, after.waiting = t :: after.waiting.tail ∧ t.isEnding = true := by
  unfold Setting.parse at h
  obtain ⟨e', s₁, -, h⟩ := Outcome.bind_eq_done.mp h
  obtain ⟨t, s₂, hpeek, h⟩ := Outcome.bind_eq_done.mp h
  split at h
  · rename_i hend
    cases h
    cases hfirst : s₁.view 0 with
    | ok u =>
      obtain ⟨s₃, hp, -, hw⟩ := Stream.peek_ok hfirst
      cases hpeek.symm.trans hp
      refine ⟨t, ?_, hend⟩
      rw [hw]
      rfl
    | error u =>
      obtain ⟨s₃, hp, -⟩ := Stream.peek_error hfirst
      cases hpeek.symm.trans hp
  · cases h

/-! ## requests -/

namespace Stream

/-- a look for a token of a kind, told by the first result: such a token can be taken, another one
waits, and an error is gone -/
theorem look_view {α : Type} {s : Stream} {k : Kind} {o : Outcome α} {hit : Stream → Outcome α}
    {miss : Token → Stream → Outcome α}
    (ho : o = s.peek.bind fun t s => if t.kind = k then hit s else miss t s) :
    (∃ t s₁ after, s.view 0 = .ok t ∧ t.kind = k ∧ o = hit s₁ ∧ s₁.pop = .done t after ∧
      (after.view = fun i => s.view (i + 1)) ∧ after.waiting = s.waiting.tail ∧ s.Reads after) ∨
    (∃ t after, s.view 0 = .ok t ∧ t.kind ≠ k ∧ o = miss t after ∧
      after.view = s.view ∧ after.waiting = t :: s.waiting.tail ∧ s.Reads after) ∨
    (∃ e after, s.view 0 = .error e ∧ o = .failed e after ∧
      (after.view = fun i => s.view (i + 1)) ∧ after.waiting = [] ∧ s.Reads after) := by
  cases hfirst : s.view 0 with
  | ok t =>
    obtain ⟨s₁, hp, hv, hw⟩ := peek_ok hfirst
    rw [hp, Outcome.bind_done] at ho
    by_cases hk : t.kind = k
    · obtain ⟨after, hpop, hafter, hgone⟩ := pop_ok hfirst
      rw [if_pos hk] at ho
      refine .inl ⟨t, s₁, after, rfl, hk, ho, (pop_of_peek hp).1.trans hpop, hafter, hgone,
        .single (.inr ?_)⟩
      rw [hpop]
      rfl
    · rw [if_neg hk] at ho
      refine .inr (.inl ⟨t, s₁, rfl, hk, ho, hv, hw, .single (.inl ?_)⟩)
      rw [hp]
      rfl
  | error e =>
    obtain ⟨s₁, hp, hv, hw⟩ := peek_error hfirst
    rw [hp, Outcome.bind_failed] at ho
    refine .inr (.inr ⟨e, s₁, rfl, ho, hv, hw, .single (.inl ?_)⟩)
    rw [hp]
    rfl

theorem feed_eq (after : Stream) {row : Nat → Except Error Token} (hv : after.view = row) :
    after.feed = ⟨after.waiting.length, row⟩ := by
  rw [← hv]
  rfl

end Stream

namespace Session

variable {g : Grammar} {ends : Token → Prop} {s : Stream}

theorem parsed_cases {o : Outcome Expr} (hended : o ≠ .unfinished)
    (hreads : ∀ s' ∈ o.after?, s.Reads s') :
    s.Reads (parsed s o).2 ∧
      ((∃ e, o = .done e (parsed s o).2 ∧ (parsed s o).1 = .expression e) ∨
        ∃ e, (parsed s o).1 = .unparsed e) := by
  cases o with
  | done e after => exact ⟨hreads after rfl, .inl ⟨e, rfl, rfl⟩⟩
  | failed e after => exact ⟨hreads after rfl, .inr ⟨e, rfl⟩⟩
  | unfinished => exact absurd rfl hended

theorem consume_step (h : s.Tidy ends) (k : Kind) :
    s.Reads (step g s (.consume k)).2 ∧
      s.feed.Step ends (.consume k) (step g s (.consume k)).1 (step g s (.consume k)).2.feed := by
  have hlook : s.consume k = s.peek.bind fun t s =>
    if t.kind = k then s.pop else .failed ⟨.unexpectedToken k.name t.lexeme, t.position⟩ s := rfl
  rcases Stream.look_view hlook with ⟨t, s₁, after, ht, rfl, hc, hpop, hv, hw, hreads⟩ |
    ⟨t, after, ht, hk, hc, hv, hw, hreads⟩ | ⟨e, after, he, hc, hv, hw, hreads⟩
  · simp only [step, hc, hpop]
    rw [Stream.feed_eq _ hv, hw, h.tail_eq_nil]
    exact ⟨hreads, .consumed ht⟩
  · simp only [step, hc]
    rw [Stream.feed_eq _ hv, hw, h.tail_eq_nil]
    exact ⟨hreads, .unexpected ht hk⟩
  · simp only [step, hc]
    rw [Stream.feed_eq _ hv, hw]
    exact ⟨hreads, .spoiled he⟩

theorem accept_step (h : s.Tidy ends) (k : Kind) :
    s.Reads (step g s (.accept k)).2 ∧
      s.feed.Step ends (.accept k) (step g s (.accept k)).1 (step g s (.accept k)).2.feed := by
  have hlook : s.accept k = s.peek.bind fun t s =>
    if t.kind = k then s.pop.bind fun _ s => .done true s else .done false s := rfl
  rcases Stream.look_view hlook with ⟨t, s₁, after, ht, rfl, hc, hpop, hv, hw, hreads⟩ |
    ⟨t, after, ht, hk, hc, hv, hw, hreads⟩ | ⟨e, after, he, hc, hv, hw, hreads⟩
  · simp only [step, hc, hpop, Outcome.bind_done]
    rw [Stream.feed_eq _ hv, hw, h.tail_eq_nil]
    exact ⟨hreads, .found ht⟩
  · simp only [step, hc]
    rw [Stream.feed_eq _ hv, hw, h.tail_eq_nil]
    exact ⟨hreads, .missed ht hk⟩
  · simp only [step, hc]
    rw [Stream.feed_eq _ hv, hw]
    exact ⟨hreads, .refused he⟩

theorem parse_step (hend : Kind.ending ∉ g.kinds) (h : s.Tidy ends) (radix : Nat) :
    s.Reads (step g s (.parse radix)).2 ∧
      s.feed.Step ends (.parse radix) (step g s (.parse radix)).1
        (step g s (.parse radix)).2.feed := by
  unfold step
  obtain ⟨hreads, hcase⟩ := parsed_cases (Setting.finished ⟨g, radix⟩ hend s).2
    (Setting.reads ⟨g, radix⟩ s).2
  refine ⟨hreads, ?_⟩
  obtain ⟨n, hv⟩ := hreads.view
  have htidy := h.reads hreads
  rcases hcase with ⟨e, hdone, hreply⟩ | ⟨e, hreply⟩
  · obtain ⟨t, hw, ht⟩ := Setting.ending_of_parse hdone
    have hfirst : s.view n = .ok t := by
      have := congrFun hv 0
      rw [Nat.zero_add] at this
      rw [← this]
      unfold Stream.view
      rw [hw]
      rfl
    rw [Stream.feed_eq _ hv, hreply, hw, htidy.tail_eq_nil]
    exact .parsed hfirst (htidy.waiting t (by rw [hw]; exact List.mem_cons_self) ht)
  · rw [Stream.feed_eq _ hv, hreply]
    exact .unparsed htidy.held

theorem parseAt_step (hend : Kind.ending ∉ g.kinds) (h : s.Tidy ends) (m : Int) (radix : Nat) :
    s.Reads (step g s (.parseAt m radix)).2 ∧
      s.feed.Step ends (.parseAt m radix) (step g s (.parseAt m radix)).1
        (step g s (.parseAt m radix)).2.feed := by
  unfold step
  obtain ⟨hreads, hcase⟩ := parsed_cases ((Setting.finished ⟨g, radix⟩ hend s).1 m)
    ((Setting.reads ⟨g, radix⟩ s).1 m)
  refine ⟨hreads, ?_⟩
  obtain ⟨n, hv⟩ := hreads.view
  have hheld := (h.reads hreads).held
  rw [Stream.feed_eq _ hv]
  rcases hcase with ⟨e, -, hreply⟩ | ⟨e, hreply⟩
  · rw [hreply]
    exact .parsedAt hheld
  · rw [hreply]
    exact .unparsedAt hheld

theorem setSource_tidy (h : s.Tidy ends) {text : List Char}
    (hends : ends (Lexer.endingAt text.length)) :
    Stream.Tidy ends { s with lexer := s.lexer.setSource text } :=
  ⟨h.held, h.waiting, h.words, Nat.zero_le _, hends⟩

theorem setRadix_tidy (h : s.Tidy ends) {radix : Nat} {l : Lexer}
    (hl : s.lexer.setRadix radix = .ok l) : Stream.Tidy ends { s with lexer := l } := by
  unfold Lexer.setRadix at hl
  split at hl
  · cases hl
  · cases hl
    exact ⟨h.held, h.waiting, h.words, h.cursor, h.ending⟩

/-- **One request is one step of the feed**, and the stream behind it is tidy again. -/
theorem step_refines (hend : Kind.ending ∉ g.kinds) (h : s.Tidy ends) (r : Request)
    (hr : ∀ text, r = .setSource text → ends (Lexer.endingAt text.length)) :
    s.feed.Step ends r (step g s r).1 (step g s r).2.feed ∧ (step g s r).2.Tidy ends := by
  have swapped (l : Lexer) :
      ∀ i < s.waiting.length, Stream.view { s with lexer := l } i = s.view i :=
    fun i hi => Stream.view_waiting s.waiting l s.lexer hi
  cases r with
  | next =>
    refine ⟨?_, h.after 1⟩
    have hfirst : s.lexer.next.1 = s.view s.waiting.length := (s.view_behind 0).symm
    show Feed.Step ends _ _ (.token s.lexer.next.1) _
    rw [Stream.feed_eq (step g s .next).2 (s.view_pulled 1), hfirst]
    exact .next
  | pull n =>
    refine ⟨?_, h.after n⟩
    show Feed.Step ends _ _ (.tokens (s.lexer.pull n).1) _
    rw [Stream.feed_eq (step g s (.pull n)).2 (s.view_pulled n), Lexer.pull_eq_map,
      show s.lexer.result = fun i => s.view (s.waiting.length + i) from
        funext fun i => (s.view_behind i).symm]
    exact .pull n
  | source => exact ⟨.source _, h⟩
  | setSource text => exact ⟨.setSource (swapped _), setSource_tidy h (hr text rfl)⟩
  | radix => exact ⟨.radix _, h⟩
  | setRadix radix =>
    simp only [step]
    cases hl : s.lexer.setRadix radix with
    | ok l => exact ⟨.setRadix (swapped l), setRadix_tidy h hl⟩
    | error e => exact ⟨.noRadix e, h⟩
  | parse radix =>
    obtain ⟨hreads, hstep⟩ := parse_step hend h radix
    exact ⟨hstep, h.reads hreads⟩
  | parseAt m radix =>
    obtain ⟨hreads, hstep⟩ := parseAt_step hend h m radix
    exact ⟨hstep, h.reads hreads⟩
  | consume k =>
    obtain ⟨hreads, hstep⟩ := consume_step h k
    exact ⟨hstep, h.reads hreads⟩
  | accept k =>
    obtain ⟨hreads, hstep⟩ := accept_step h k
    exact ⟨hstep, h.reads hreads⟩
  | reset =>
    refine ⟨?_, h.of_waiting (Nat.zero_le 1) fun t ht => nomatch ht⟩
    have hv : s.reset.view = fun i => s.view (i + s.waiting.length) := by
      funext i
      rw [Nat.add_comm, s.view_behind]
      rfl
    rw [Stream.feed_eq (step g s .reset).2 hv]
    exact .reset

theorem run_refines (hend : Kind.ending ∉ g.kinds) (h : s.Tidy ends) (requests : List Request)
    (hr : ∀ text, .setSource text ∈ requests → ends (Lexer.endingAt text.length)) :
    Feed.Run ends s.feed requests ((run g s requests).map fun a => (a.1, a.2.feed)) ∧
      ∀ a ∈ run g s requests, a.2.Tidy ends := by
  induction requests generalizing s with
  | nil => exact ⟨.nil, fun a ha => nomatch ha⟩
  | cons r rs ih =>
    obtain ⟨hstep, htidy⟩ := step_refines hend h r fun text e => hr text (e ▸ List.mem_cons_self)
    obtain ⟨hrun, hall⟩ := ih htidy fun text htext => hr text (List.mem_cons_of_mem _ htext)
    exact ⟨.cons hstep hrun, List.forall_mem_cons.mpr ⟨htidy, hall⟩⟩

/-- the ending tokens of the sources that a session has -/
def endings (l : Lexer) (requests : List Request) (t : Token) : Prop :=
  t = Lexer.endingAt l.source.length ∨
    ∃ text, .setSource text ∈ requests ∧ t = Lexer.endingAt text.length

end Session

theorem Stream.tidy_new {g : Grammar} {mode : Mode} {config : Config} {text : List Char} {l : Lexer}
    (hg : g.Assembled) (hend : Kind.ending ∉ g.kinds) (hl : Lexer.new g mode config text = .ok l)
    {ends : Token → Prop} (hends : ends (Lexer.endingAt l.source.length)) :
    (ofLexer l).Tidy ends := by
  obtain ⟨hcursor, -, -, hname, -⟩ := Lexer.new_eq_ok hl
  obtain ⟨nonDecimal, hregistry⟩ := hg.registry
  refine ⟨Nat.zero_le 1, fun t ht => (nomatch ht), ?_, ?_, hends⟩
  · intro h
    exact hend (h ▸ hregistry.nameKind _ hname)
  · show l.cursor ≤ l.source.length
    rw [hcursor]
    exact Nat.zero_le _

/-- **A session is a plain feed.**  In a grammar that registrations lead to and that does not
register the ending kind, any requests to a new lexer and a parser on it are answered as the feed
tells that starts with nothing held and all results of the lexer.  Before every request, behind it
and wherever looking and taking lead from there, as they do inside of a parse, one token waits at
most, and no fallback for an empty buffer is given. -/
theorem session_refines_feed (g : Grammar) (mode : Mode) (config : Config) (text : List Char)
    (l : Lexer) (requests : List Request) (hg : g.Assembled) (hend : Kind.ending ∉ g.kinds)
    (hl : Lexer.new g mode config text = .ok l) :
    Feed.Run (Session.endings l requests) ⟨0, l.result⟩ requests
      ((Session.run g (.ofLexer l) requests).map fun a => (a.1, a.2.feed)) ∧
    ∀ s ∈ Stream.ofLexer l :: (Session.run g (.ofLexer l) requests).map Prod.snd,
      (∀ s', s.Reads s' → s'.waiting.length ≤ 1 ∧
        ∀ fallback, s'.peek = s'.frontOr fallback ∧ s'.pop = s'.popFrontOr fallback) ∧
      ∀ radix, (∀ s' ∈ (Setting.parse ⟨g, radix⟩ s).after?, s.Reads s') ∧
        ∀ m, ∀ s' ∈ (Setting.parseFrom ⟨g, radix⟩ m s).after?, s.Reads s' := by
  have htidy : (Stream.ofLexer l).Tidy (Session.endings l requests) :=
    Stream.tidy_new hg hend hl (.inl rfl)
  obtain ⟨hrun, hall⟩ := Session.run_refines hend htidy requests
    fun text htext => .inr ⟨text, htext, rfl⟩
  have hstreams : ∀ s ∈ Stream.ofLexer l :: (Session.run g (.ofLexer l) requests).map Prod.snd,
      s.Tidy (Session.endings l requests) := by
    refine List.forall_mem_cons.mpr ⟨htidy, fun s hs => ?_⟩
    obtain ⟨a, ha, rfl⟩ := List.mem_map.mp hs
    exact hall a ha
  refine ⟨hrun, fun s hs => ⟨fun s' hreads => ⟨?_, fun fallback => ⟨?_, ?_⟩⟩, fun radix => ?_⟩⟩
  · exact ((hstreams s hs).reads hreads).held
  · exact s'.peek_eq_frontOr fallback
  · exact s'.pop_eq_popFrontOr fallback
  · exact ⟨(Setting.reads ⟨g, radix⟩ s).2, (Setting.reads ⟨g, radix⟩ s).1⟩

/-- requests that look, pull past what waits, take, fail on an error in the text and go on -/
def mixedRequests : List Request :=
  [.accept Kind.ending, .next, .consume Kind.word, .parse 10, .consume Kind.ending, .reset,
    .parseAt 0 10, .setSource "2*(c)".toList, .reset, .parse 10, .pull 2, .consume Kind.ending]

def mixedStream : Stream := .ofLexer (Mode.scientific.lexer "a+1 $ b c".toList)

theorem mixedSession_refines :
    Mode.scientific.language.Assembled ∧ Kind.ending ∉ Mode.scientific.language.kinds ∧
    Lexer.new Mode.scientific.language .scientific Config.whole "a+1 $ b c".toList
      = .ok mixedStream.lexer ∧
    (Session.run Mode.scientific.language mixedStream mixedRequests).map
        (fun a => a.2.waiting.map Token.lexeme)
      = [["a"], ["a"], [], [], ["b"], [], [""], [""], [], [""], [""], []].map
          (List.map String.toList) ∧
    Feed.Run (Session.endings mixedStream.lexer mixedRequests) ⟨0, mixedStream.lexer.result⟩
      mixedRequests ((Session.run Mode.scientific.language mixedStream mixedRequests).map
        fun a => (a.1, a.2.feed)) := by
  have hg := Grammar.assembled_of_build (Mode.grammar_eq .scientific)
  have hend := (Mode.grammar_standard (Mode.grammar_eq .scientific)).noEnding
  have hl := Mode.scientific.lexer_eq "a+1 $ b c".toList
  exact ⟨hg, hend, hl, by decide +kernel,
    (session_refines_feed _ _ _ _ _ mixedRequests hg hend hl).1⟩

end Calculator
