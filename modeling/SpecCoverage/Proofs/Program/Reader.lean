import SpecCoverage.Program.Reader
import SpecCoverage.Proofs.Program.Expression
import SpecCoverage.Proofs.Program.Module

/-!
# Programs are sound

The rules of every depth keep their place, by induction on the depth: each is built from the rules of the depth before.
So the declarations and the functions of a program that has been read are written where its tree says
(`sound_readProgram`).
-/

namespace SpecCoverage.Program

open Source

variable {src : List Char} {s : State}

private theorem keeps_rulesOfDepth (n : Nat) : (rulesOfDepth n).Keeps src := by
  induction n with
  | zero =>
    exact {
      assignment := fun _ _ => keeps_refuse
      expression := fun _ _ => keeps_refuse
      binary := fun _ _ => keeps_refuse
      unary := fun _ _ => keeps_refuse
      leftHand := fun _ _ _ => keeps_refuse
      binding := fun _ _ => keeps_refuse
      statement := fun _ _ => keeps_refuse
      listed := fun _ _ => keeps_refuse
      moduleItem := fun _ _ => keeps_refuse
      type := fun _ _ => keeps_refuse
      pattern := fun _ => gives_refuse
      element := fun _ _ _ _ _ _ => runs_refuse }
  | succ n ih =>
    exact {
      assignment := fun _ _ => keeps_assignmentExpression ih
      expression := fun _ _ => keeps_commaExpression ih
      binary := fun _ _ => keeps_binaryExpression ih
      unary := fun _ _ => keeps_unaryExpression ih
      leftHand := fun _ _ _ => keeps_leftHandExpression ih
      binding := fun _ _ => keeps_bindingTarget ih
      statement := fun _ _ => keeps_statement ih
      listed := fun _ _ => keeps_listedStatement ih
      moduleItem := fun _ _ => keeps_moduleItem ih
      type := fun _ _ => keeps_typeExpression ih
      pattern := fun _ => gives_bindingTarget
      element := fun _ _ _ within angle ahead => runs_elementAt ih within angle ahead }

private theorem keeps_programRule {g : Grammar} (hg : g.Keeps src) {dialect : Dialect} :
    Keeps src s (programRule g dialect) := by
  refine keeps_asks asks_asksForStrict fun strict _ => ?_
  extract_lets cx
  refine keeps_bind (keeps_repeated fun t => keeps_atEnd.2 ?_) fun items t hitems => keeps_atEnd.2 ?_
  · grind
  · grind

/-- What a program declares is written in its text, where the tree says. -/
theorem sound_readProgram {dialect : Dialect} {tree : Tree} (h : readProgram dialect src = .ok tree) :
    Sound src tree := by
  obtain ⟨token, first, h⟩ := bind_eq_ok.1 h
  obtain ⟨⟨found, last⟩, run, h⟩ := bind_eq_ok.1 h
  have located : token.Located src := by
    obtain ⟨reaches, read⟩ := readFirstToken_eq_ok first
    exact ⟨reaches, read⟩
  obtain ⟨-, hfound⟩ := (keeps_programRule (keeps_rulesOfDepth _)).step ⟨located, Nat.zero_le _⟩ run
  change (if hasStrayDefault found then (throw ⟨0⟩ : Except Failure Tree) else pure found) = .ok tree at h
  split at h
  · cases h
  · cases h
    exact allSound_tree.1 hfound

end SpecCoverage.Program
