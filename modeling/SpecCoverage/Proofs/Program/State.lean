import SpecCoverage.Program.Grammar
import SpecCoverage.Proofs.Program.Lexer

/-!
# States of the reader

The state of the reader stands in the text that it reads (`Inv`): its token is the one that the lexer reads at a
place of the text, and the token before it ends in front of that place.  A rule moves the state forward (`Moved`),
and unless it reads nothing, it stops behind a lexeme that it has read (`Step`).
-/

namespace SpecCoverage.Program

open Cursor

variable {src : List Char}

/-- The cursor stands in the text. -/
def Within (src : List Char) (c : Cursor) : Prop := Reaches ⟨src, 0⟩ c

theorem Within.reaches {c c' : Cursor} (h : Within src c) (hcc' : Reaches c c') : Within src c' := h.trans hcc'

/-- What stands between two cursors is one word of the language: a token, half of a longer symbol, a piece of a
template, a regular expression or the string of an attribute. -/
inductive Lexeme : Cursor → Cursor → Prop where
  | token {c stop : Cursor} {kind : TokenKind} : readKind c = .ok (kind, stop) → Lexeme c stop
  | angle {c : Cursor} : c.head? = some '<' ∨ c.head? = some '>' → Lexeme c (c.skip 1)
  | template {c stop : Cursor} {ending : TemplateEnd} {valid : Bool} :
      readTemplate c = .ok (ending, valid, stop) → Lexeme c stop
  | regex {c stop : Cursor} : readRegex c = .ok stop → Lexeme c stop
  | elementString {c stop : Cursor} : readElementString c = .ok stop → Lexeme c stop

/-- A word of some kind that begins at a byte position or behind it ends at another one. -/
def Ends (src : List Char) (last : Cursor → Cursor → Prop) (start stop : Nat) : Prop :=
  ∃ c c', Within src c ∧ last c c' ∧ Passes c c' ∧ start ≤ c.offset ∧ c'.offset = stop

section Ends

variable {last : Cursor → Cursor → Prop} {start start' stop : Nat}

theorem Ends.mono (h : Ends src last start stop) (le : start' ≤ start) : Ends src last start' stop := by
  obtain ⟨c, c', within, word, passes, hstart, hstop⟩ := h
  exact ⟨c, c', within, word, passes, Nat.le_trans le hstart, hstop⟩

theorem Ends.lt (h : Ends src last start stop) : start < stop := by
  obtain ⟨c, c', -, -, passes, hstart, rfl⟩ := h
  exact Nat.lt_of_le_of_lt hstart passes.2

end Ends

/-- The token is one that the lexer reads in the text. -/
structure Token.Located (src : List Char) (t : Token) : Prop where
  within : Within src t.start
  read : readKind t.start = .ok (t.kind, t.stop)

namespace Token.Located

variable {t : Token}

theorem reaches (h : t.Located src) : Reaches t.start t.stop := readKind_reaches h.read

theorem passes (h : t.Located src) (some : t.kind ≠ .endOfText) : Passes t.start t.stop := readKind_passes h.read some

theorem stop_within (h : t.Located src) : Within src t.stop := h.within.reaches h.reaches

end Token.Located

private theorem located_of_readToken {classic : Bool} {c : Cursor} {t : Token} (within : Within src c)
    (h : readToken classic c = .ok t) : t.Located src :=
  ⟨within.reaches (readToken_eq_ok h).1, (readToken_eq_ok h).2⟩

structure Inv (src : List Char) (s : State) : Prop where
  located : s.token.Located src
  behind : s.lastStop ≤ s.token.startOffset

/-- The cursor stands in the text, behind the current token. -/
structure Ahead (src : List Char) (s : State) (c : Cursor) : Prop where
  within : Within src c
  le : s.token.stopOffset ≤ c.offset

/-- The cursor stands behind a lexeme that begins at the current token or behind it. -/
def Closed (src : List Char) (s : State) (stop : Cursor) : Prop :=
  ∃ c, Within src c ∧ Lexeme c stop ∧ Passes c stop ∧ s.token.startOffset ≤ c.offset

theorem Closed.ahead {s : State} {stop : Cursor} (h : Closed src s stop) :
    Within src stop ∧ s.token.startOffset ≤ stop.offset := by
  obtain ⟨c, within, -, passes, le⟩ := h
  exact ⟨within.reaches passes.1, Nat.le_trans le passes.1.le⟩

theorem Inv.closed_stop {s : State} (h : Inv src s) (some : s.token.kind ≠ .endOfText) : Closed src s s.token.stop :=
  ⟨s.token.start, h.located.within, .token h.located.read, h.located.passes some, Nat.le_refl _⟩

theorem Inv.ahead_stop {s : State} (h : Inv src s) : Ahead src s s.token.stop := ⟨h.located.stop_within, Nat.le_refl _⟩

/-- A token of this kind is read as a whole: no shorter symbol and no other word begins where it does. -/
def TokenKind.IsFirm (kind : TokenKind) : Prop := ∀ text, kind = .symbol text → text = "@" ∨ text = "*"

/-- The second state stands at or behind the first. -/
structure Moved (src : List Char) (s s' : State) : Prop where
  inv : Inv src s'
  start_le : s.token.startOffset ≤ s'.token.startOffset
  stop_le : s.lastStop ≤ s'.lastStop

theorem Moved.trans {s t u : State} (hst : Moved src s t) (htu : Moved src t u) : Moved src s u :=
  ⟨htu.inv, Nat.le_trans hst.start_le htu.start_le, Nat.le_trans hst.stop_le htu.stop_le⟩

/-- The first state is the second, or a lexeme has been read last between them; a firm token has been read as a
whole. -/
structure Step (src : List Char) (s s' : State) : Prop extends Moved src s s' where
  ended : s' = s ∨ Ends src Lexeme s.token.startOffset s'.lastStop ∧
    (s.token.kind.IsFirm → s.token.stopOffset ≤ s'.lastStop)

theorem Step.refl {s : State} (h : Inv src s) : Step src s s :=
  ⟨⟨h, Nat.le_refl _, Nat.le_refl _⟩, .inl rfl⟩

theorem Step.trans {s t u : State} (hst : Step src s t) (htu : Step src t u) : Step src s u := by
  refine ⟨hst.toMoved.trans htu.toMoved, ?_⟩
  rcases htu.ended with rfl | ⟨ends, -⟩
  · exact hst.ended
  rcases hst.ended with rfl | ⟨-, whole⟩
  · exact htu.ended
  · exact .inr ⟨ends.mono hst.start_le, fun firm => Nat.le_trans (whole firm) htu.stop_le⟩

/-- A way in which the state moves on in a text. -/
class Progress (R : List Char → State → State → Prop) : Prop where
  refl {src : List Char} {s : State} : Inv src s → R src s s
  trans {src : List Char} {s t u : State} : R src s t → R src t u → R src s u
  moved {src : List Char} {s t : State} : R src s t → Moved src s t

instance : Progress Moved := ⟨fun h => ⟨h, Nat.le_refl _, Nat.le_refl _⟩, Moved.trans, id⟩
instance : Progress Step := ⟨Step.refl, Step.trans, Step.toMoved⟩

/-! ## Runs of rules -/

section Runs

variable {α β : Type} {s t : State}

theorem bind_ok {rule : Parse α} {next : α → Parse β} {b : β} (run : (rule >>= next) s = .ok (b, t)) :
    ∃ a u, rule s = .ok (a, u) ∧ next a u = .ok (b, t) := by
  obtain ⟨⟨a, u⟩, first, second⟩ := bind_eq_ok.1 (show (rule s >>= fun (a, u) => next a u) = _ from run)
  exact ⟨a, u, first, second⟩

theorem bind_of_ok {rule : Parse α} {next : α → Parse β} {a : α} (run : rule s = .ok (a, t)) :
    (rule >>= next) s = next a t := by
  show (rule s >>= fun (a, u) => next a u) = _
  rw [run]
  rfl

theorem lift_ok {scan : Except Failure α} {a : α} (run : (liftM scan : Parse α) s = .ok (a, t)) :
    scan = .ok a ∧ s = t := by
  obtain ⟨found, hscan, run⟩ := bind_eq_ok.1 (show (scan >>= fun a => pure (a, s)) = _ from run)
  cases run
  exact ⟨hscan, rfl⟩

theorem refuse_ok {a : α} : (refuse : Parse α) s ≠ .ok (a, t) := nofun

end Runs

/-! ## Reading on -/

/-- Goes on behind a lexeme that stands at the current token or behind it. -/
theorem step_of_lexeme {s s' : State} {c c' : Cursor} (h : Inv src s) (within : Within src c) (lexeme : Lexeme c c')
    (passes : Passes c c') (start : s.token.startOffset ≤ c.offset)
    (whole : s.token.kind.IsFirm → s.token.stopOffset ≤ c'.offset) (located : s'.token.Located src)
    (next : Reaches c' s'.token.start) (stop : s'.lastStop = c'.offset) : Step src s s' := by
  have before : s.lastStop ≤ s.token.startOffset := h.behind
  have after : c'.offset ≤ s'.token.startOffset := next.le
  have := passes.2
  refine ⟨⟨⟨located, by omega⟩, by omega, by omega⟩, .inr ⟨⟨c, c', within, lexeme, passes, start, stop.symm⟩, ?_⟩⟩
  exact fun firm => stop ▸ whole firm

theorem resume_ok {c : Cursor} {s s' : State} {u : Unit} (within : Within src c) (run : resume c s = .ok (u, s')) :
    s'.token.Located src ∧ Reaches c s'.token.start ∧ s'.lastStop = c.offset := by
  obtain ⟨_, _, get, run⟩ := bind_ok run
  cases get
  obtain ⟨token, _, lifted, run⟩ := bind_ok run
  obtain ⟨hread, rfl⟩ := lift_ok lifted
  cases run
  exact ⟨located_of_readToken within hread, (readToken_eq_ok hread).1, rfl⟩

theorem step_resume {s s' : State} {c c' : Cursor} {u : Unit} (h : Inv src s) (within : Within src c)
    (lexeme : Lexeme c c') (passes : Passes c c') (start : s.token.startOffset ≤ c.offset)
    (whole : s.token.kind.IsFirm → s.token.stopOffset ≤ c'.offset) (run : resume c' s = .ok (u, s')) :
    Step src s s' := by
  obtain ⟨located, next, stop⟩ := resume_ok (within.reaches passes.1) run
  exact step_of_lexeme h within lexeme passes start whole located next stop

theorem advance_ok {s s' : State} {u : Unit} (run : advance s = .ok (u, s')) :
    resume s.token.stop s = .ok (u, s') := run

theorem step_advance {s s' : State} {u : Unit} (h : Inv src s) (some : s.token.kind ≠ .endOfText)
    (run : advance s = .ok (u, s')) : Step src s s' :=
  step_resume h h.located.within (.token h.located.read) (h.located.passes some) (Nat.le_refl _)
    (fun _ => Nat.le_refl _) (advance_ok run)

theorem not_isFirm_symbol {c c' : Cursor} {text : String} {first : Char}
    (read : readKind c = .ok (.symbol text, c'))
    (head : c.head? = some first) (other : first ≠ '@' ∧ first ≠ '*') : ¬ (TokenKind.symbol text).IsFirm := by
  intro firm
  have first := head.symm.trans (head?_of_symbol read)
  rcases firm text rfl with rfl | rfl
  · exact other.1 (Option.some.inj first)
  · exact other.2 (Option.some.inj first)

theorem step_advanceByOne {s s' : State} {u : Unit} {text : String} (h : Inv src s)
    (symbol : s.token.kind = .symbol text)
    (angle : s.token.start.head? = some '<' ∨ s.token.start.head? = some '>')
    (run : advanceByOne s = .ok (u, s')) : Step src s s' := by
  obtain ⟨_, _, get, run⟩ := bind_ok run
  cases get
  obtain ⟨token, _, lifted, run⟩ := bind_ok run
  obtain ⟨hread, rfl⟩ := lift_ok lifted
  cases run
  have passes : Passes s.token.start (s.token.start.skip 1) := by
    rcases angle with head | head <;> exact passes_skip_one head (by decide)
  obtain ⟨start, hkind⟩ := readTokenAt_eq_ok hread
  have located : token.Located src := ⟨start ▸ h.located.within.reaches passes.1, start ▸ hkind⟩
  have loose : ¬ s.token.kind.IsFirm := by
    have read := h.located.read
    rw [symbol] at read ⊢
    rcases angle with head | head <;> exact not_isFirm_symbol read head (by decide)
  exact step_of_lexeme h h.located.within (.angle angle) passes (Nat.le_refl _) (fun firm => absurd firm loose) located
    (start ▸ .refl _) rfl

end SpecCoverage.Program
