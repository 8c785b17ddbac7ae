import Typings.Declaration.Core
import Typings.Proofs.Script.Spelling

/-!
# The tokens of an interface

An interface is printed as the tokens of its parts, provided that each part can be told on its own
from what follows it. The core types are interfaces of that kind.
-/

namespace Typings

open Script

/-! ## Texts on their own -/

def textTokens (s : String) : List Token := (scan s).getD []

/-- The text needs no more than a boundary after it. -/
def Spelled (s : String) : Prop := Ends s.toList (textTokens s)

theorem textTokens_of_ends {s : String} {ts : List Token} (h : Ends s.toList ts) :
    textTokens s = ts := by
  rw [textTokens, h.scan]
  rfl

theorem spelled_of_ends {s : String} {ts : List Token} (h : Ends s.toList ts) : Spelled s := by
  rw [Spelled, textTokens_of_ends h]
  exact h

/-- Whether a boundary completes the last token. -/
def Script.State.isSettled : Script.State → Bool
  | .between | .word _ => true
  | .number part _ => part.isComplete
  | _ => false

theorem Script.State.settles_of_isSettled {s : Script.State} (h : s.isSettled = true) :
    ∃ ts, s.Settles ts := by
  cases s with
  | between => exact ⟨_, between_settles⟩
  | word read => exact ⟨_, word_settles read⟩
  | number part read => exact ⟨_, number_settles h read⟩
  | _ => exact absurd h (by simp [Script.State.isSettled])

theorem spelled_of_run {s : String} (h : ((run .between s.toList).any fun r => r.1.isSettled) = true) :
    Spelled s := by
  obtain ⟨⟨st, before⟩, hrun, hst⟩ := (Option.any_eq_true _ _).mp h
  obtain ⟨last, hlast⟩ := Script.State.settles_of_isSettled hst
  exact spelled_of_ends ⟨st, before, last, hrun, hlast, rfl⟩

theorem scans_blanks {cs : List Char} (h : ∀ c ∈ cs, c = ' ' ∨ c = '\n') : Scans cs [] := by
  induction cs with
  | nil => rfl
  | cons c rest ih =>
    have hblank : Scans [c] [] := by rcases h c List.mem_cons_self with rfl | rfl <;> decide
    exact hblank.append (ih fun d hd => h d (List.mem_cons_of_mem _ hd))

theorem scans_intercalate {α : Type} {text : α → String} {tokens : α → List Token} {separator : String}
    (hsep : Scans separator.toList []) (xs : List α) (h : ∀ x ∈ xs, Scans (text x).toList (tokens x)) :
    Scans (separator.intercalate (xs.map text)).toList (xs.flatMap tokens) := by
  induction xs with
  | nil => rfl
  | cons x rest ih =>
    have hx := h x List.mem_cons_self
    have hrest := ih fun y hy => h y (List.mem_cons_of_mem _ hy)
    cases rest with
    | nil => simpa using hx
    | cons y more => simpa using hx.append (hsep.append hrest)

/-! ## Members -/

namespace Layout

mutual

def Spelled : Layout → Prop
  | .line type => Typings.Spelled type
  | .block lead members => Typings.Spelled lead ∧ AllSpelled members

/-- Every name and every type among the members is spelled. -/
def AllSpelled : List (String × Layout) → Prop
  | [] => True
  | (name, layout) :: rest => Typings.Spelled name ∧ layout.Spelled ∧ AllSpelled rest

end

mutual

def tokens : Layout → List Token
  | .line type => textTokens type
  | .block lead members =>
    textTokens lead ++ Token.punct '\x7b' :: memberTokens members ++ [Token.punct '\x7d']

def memberTokens : List (String × Layout) → List Token
  | [] => []
  | (name, layout) :: rest =>
    textTokens name ++ Token.punct ':' :: layout.tokens ++ Token.punct ';' :: memberTokens rest

end

theorem scans_spaces (n : Nat) : Scans (spaces n).toList [] := by
  apply scans_blanks
  intro c hc
  rw [spaces, String.toList_ofList] at hc
  exact Or.inl (List.eq_of_mem_replicate hc)

theorem scans_colon : Scans ": ".toList [Token.punct ':'] := rfl

mutual

theorem scans_member (indent : Nat) (name : String) (layout : Layout)
    (hname : Typings.Spelled name) (h : layout.Spelled) :
    Scans (member indent name layout).toList
      (textTokens name ++ Token.punct ':' :: layout.tokens ++ [Token.punct ';']) := by
  cases layout with
  | line type =>
    have hsemi : Scans ";\n".toList [Token.punct ';'] := rfl
    have htype := scans_colon.append (Ends.append h hsemi rfl)
    have := (scans_spaces indent).append (hname.append htype rfl)
    simpa [member, tokens] using this
  | block lead members =>
    have hopen : Scans "\x7b\n".toList [Token.punct '\x7b'] := rfl
    have hclose : Scans "\x7d;\n".toList [Token.punct '\x7d', .punct ';'] := rfl
    have hmembers := scans_memberLines (indent + 2) members h.2
    have hend := (scans_spaces indent).append hclose
    have hbody := Ends.append h.1 (hopen.append (hmembers.append hend)) rfl
    have := (scans_spaces indent).append (hname.append (scans_colon.append hbody) rfl)
    simpa [member, tokens] using this

theorem scans_memberLines (indent : Nat) (members : List (String × Layout)) (h : AllSpelled members) :
    Scans (memberLines indent members).toList (memberTokens members) := by
  match members, h with
  | [], _ => rfl
  | (name, layout) :: rest, ⟨hname, hlayout, hrest⟩ =>
    have := (scans_member indent name layout hname hlayout).append (scans_memberLines indent rest hrest)
    simpa [memberLines, memberTokens] using this

end

end Layout

/-! ## Interfaces -/

namespace Interface

def Spelled (i : Interface) : Prop := Typings.Spelled i.head ∧ Layout.AllSpelled i.members

def tokens (i : Interface) : List Token :=
  Token.word "export" :: .word "interface" :: textTokens i.head ++
    Token.punct '\x7b' :: Layout.memberTokens i.members ++ [Token.punct '\x7d']

theorem scans_render (i : Interface) (h : i.Spelled) : Scans i.render.toList i.tokens := by
  have hexport : Scans "export interface ".toList [Token.word "export", .word "interface"] := rfl
  have hopen : Scans " \x7b\n".toList [Token.punct '\x7b'] := rfl
  have hclose : Scans "\x7d".toList [Token.punct '\x7d'] := rfl
  have hmembers := Layout.scans_memberLines 2 i.members h.2
  have := hexport.append (Ends.append h.1 (hopen.append (hmembers.append hclose)) rfl)
  unfold render
  simpa [tokens] using this

end Interface

/-! ## The core types -/

namespace Core

def tokens : List Token := interfaces.flatMap Interface.tokens

theorem spelled_of_mem : ∀ i ∈ interfaces, i.Spelled := by
  intro i hi
  simp only [interfaces, List.mem_cons, List.not_mem_nil, or_false] at hi
  rcases hi with rfl | rfl | rfl | rfl | rfl | rfl <;>
    simp only [Interface.Spelled, link, entrySys, entry, assetSys, asset, document, Layout.AllSpelled,
      Layout.Spelled, and_true] <;>
    and_intros <;> exact spelled_of_run rfl

theorem scans_text : Scans text.toList tokens := by
  have hlines : Scans "\n\n".toList [] := rfl
  exact scans_intercalate hlines interfaces fun i hi => i.scans_render (spelled_of_mem i hi)

end Core

end Typings
