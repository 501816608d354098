import DocTypes.Proofs.Signature.Alike
import DocTypes.Proofs.Signature.Balance
import Mathlib.Logic.Relation

/-! # Lines that can be left out

Not all lines of a file count for what it declares.  What stands in a frame of code can be left out,
whatever it is, and so can the two lines around a singleton class; and for the names in an RBS file
it does not matter what its interfaces hold (`Pruned`, `Signature.scan_pruned`).

Lines may be replaced by others that contribute the same declarations, wherever they stand, for the
scan goes on alike behind them (`Signature.agree_replace`).  The same holds when the declarations are
only related, as two interfaces are that have the same name, with nothing harvested from either
(`Signature.HarvestedAlike`). -/

namespace DocTypes

open Nesting

/-- Whether lines are left of other lines when something is left out that does not count: the lines
in a frame of code, those around a singleton class, or those in an interface. -/
inductive Pruned : SignatureFormat → List Text → List Text → Prop where
  | body {before inside after : List Text} {opener closer : Text}
      (opens : LineRole.of .rbi opener = .opening .code)
      (balanced : Nesting.Balanced .rbi inside) (closes : LineRole.of .rbi closer = .closing) :
      Pruned .rbi (before ++ opener :: (inside ++ closer :: after))
        (before ++ opener :: closer :: after)
  | singleton {before inside after : List Text} {opener closer : Text}
      (opens : LineRole.of .rbi opener = .opening .transparent)
      (balanced : Nesting.Balanced .rbi inside) (closes : LineRole.of .rbi closer = .closing) :
      Pruned .rbi (before ++ opener :: (inside ++ closer :: after)) (before ++ (inside ++ after))
  | interface {before inside after : List Text} {opener closer name : Text}
      (opens : LineRole.of .rbs opener = .opening (.declaration .interfaceDef name))
      (balanced : Nesting.Balanced .rbs inside) (closes : LineRole.of .rbs closer = .closing) :
      Pruned .rbs (before ++ opener :: (inside ++ closer :: after))
        (before ++ opener :: closer :: after)

/-! ## Related declarations -/

namespace Signature

/-- Whether the same names are harvested from two declarations, wherever they stand. -/
def HarvestedAlike (a b : Signature) : Prop := ∀ outer, a.harvestIn outer = b.harvestIn outer

variable {signatures signatures' : List Signature} {R : Signature → Signature → Prop}

theorem harvestAllIn_congr (h : List.Forall₂ HarvestedAlike signatures signatures')
    (outer : List Text) : harvestAllIn outer signatures = harvestAllIn outer signatures' := by
  induction h with
  | nil => rfl
  | cons hfirst _ ih => rw [harvestAllIn, harvestAllIn, hfirst, ih]

theorem congruent_harvestedAlike : Scan.Congruent HarvestedAlike := by
  intro kind name members members' hmembers outer
  simp only [harvestIn, harvestAllIn_congr hmembers]

theorem congruent_eq : Scan.Congruent Eq := by
  intro kind name members members' hmembers
  rw [List.forall₂_eq_eq_eq] at hmembers
  rw [hmembers]

/-- Nothing is harvested from an interface. -/
theorem harvestedAlike_interface (name : Text) (members members' : List Signature) :
    HarvestedAlike (.node .interfaceDef name members) (.node .interfaceDef name members') :=
  fun _ => rfl

/-! ## Lines in place of others -/

/-- The declarations of a file with the given lines. -/
def scanLines (format : SignatureFormat) (lines : List Text) : Except ScanError (List Signature) :=
  Scan.State.start.run format 1 lines >>= Scan.State.finish

theorem scan_eq (format : SignatureFormat) (source : Text) :
    scan format source = scanLines format source.lines := by
  rw [scan, scanLines]
  cases Scan.State.start.run format 1 source.lines <;> rfl

variable {format : SignatureFormat} {middle middle' lines lines' : List Text}
variable {forest : List Signature}

/-- **Lines may be replaced by others that contribute related declarations.** -/
theorem agree_replace (hrefl : ∀ signature, R signature signature) (hR : Scan.Congruent R)
    (h : Scan.State.Contributes format middle signatures)
    (h' : Scan.State.Contributes format middle' signatures')
    (hsignatures : List.Forall₂ R signatures signatures') (before after : List Text) :
    Scan.Agree (List.Forall₂ R) (scanLines format (before ++ (middle ++ after)))
      (scanLines format (before ++ (middle' ++ after))) := by
  rw [scanLines, scanLines, Scan.State.run_append_eq_bind, Scan.State.run_append_eq_bind, bind_assoc,
    bind_assoc]
  cases Scan.State.start.run format 1 before with
  | error e => exact .error rfl
  | ok s =>
    have halike := (Scan.State.Alike.refl hrefl s).addAll hsignatures
    show Scan.Agree _ (s.run format _ (middle ++ after) >>= Scan.State.finish)
      (s.run format _ (middle' ++ after) >>= Scan.State.finish)
    rw [Scan.State.run_append (h s _), Scan.State.run_append (h' s _)]
    exact (halike.run hR format _ _ after).bind fun _ _ h => h.finish

/-- Related results are results for both or for neither. -/
theorem exists_of_agree {x y : Except ScanError (List Signature)}
    (h : Scan.Agree (List.Forall₂ R) x y) (hx : x = .ok forest) :
    ∃ forest', y = .ok forest' ∧ List.Forall₂ R forest forest' := by
  subst hx
  cases h with
  | ok h => exact ⟨_, rfl, h⟩

/-! ## What does not count -/

variable {opener closer : Text} {inside before after : List Text} {kind : FrameKind}

/-- A frame contributes what it yields, and without the lines in it what an empty one yields. -/
theorem contributes_emptied (opens : LineRole.of format opener = .opening kind)
    (balanced : Nesting.Balanced format inside) (closes : LineRole.of format closer = .closing) :
    ∃ declared members, (kind ≠ .code → declared = []) ∧
      Scan.State.Contributes format inside members ∧
      Scan.State.Contributes format (opener :: (inside ++ [closer]))
        (declared ++ kind.yield members) ∧
      Scan.State.Contributes format [opener, closer] (declared ++ kind.yield []) := by
  obtain ⟨members, hinside⟩ := Scan.State.exists_contributes balanced.nested
  obtain ⟨declared, hdeclared, hopens⟩ := Scan.State.exists_opens opens
  have hcloses := (LineEvent.shape_of format closer).eq_of_closing closes
  exact ⟨declared, members, hdeclared, hinside, hinside.frame hopens hcloses,
    Scan.State.contributes_nil.frame hopens hcloses⟩

/-- The lines of a frame, with what is before and after it. -/
theorem lines_frame (before after inside : List Text) (opener closer : Text) :
    before ++ opener :: (inside ++ closer :: after) =
      before ++ ((opener :: (inside ++ [closer])) ++ after) := by
  simp

end Signature

namespace Pruned
open Signature

variable {lines lines' : List Text} {forest : List Signature}

/-- **What does not count in an RBI file may be left out.** -/
theorem scan_rbi (h : Pruned .rbi lines lines') (hscan : scanLines .rbi lines = .ok forest) :
    scanLines .rbi lines' = .ok forest := by
  have hkeeps : ∀ {before middle middle' after : List Text} {signatures : List Signature},
      Scan.State.Contributes .rbi middle signatures →
        Scan.State.Contributes .rbi middle' signatures →
          scanLines .rbi (before ++ (middle ++ after)) = .ok forest →
            scanLines .rbi (before ++ (middle' ++ after)) = .ok forest := by
    intro before middle middle' after signatures hmiddle hmiddle' hscan
    have hagree := agree_replace (fun _ => rfl) congruent_eq hmiddle hmiddle'
      (List.forall₂_same.mpr fun _ _ => rfl) before after
    obtain ⟨forest', hscan', hforest⟩ := exists_of_agree hagree hscan
    rw [List.forall₂_eq_eq_eq] at hforest
    rw [hscan', hforest]
  cases h with
  | body opens balanced closes =>
    obtain ⟨declared, members, -, -, hframe, hempty⟩ := contributes_emptied opens balanced closes
    rw [lines_frame] at hscan
    exact hkeeps hframe hempty hscan
  | singleton opens balanced closes =>
    obtain ⟨declared, members, hdeclared, hinside, hframe, -⟩ :=
      contributes_emptied opens balanced closes
    rw [hdeclared FrameKind.noConfusion] at hframe
    rw [lines_frame] at hscan
    exact hkeeps hframe hinside hscan

/-- **What an RBS file has in its interfaces is not harvested.** -/
theorem scan_rbs (h : Pruned .rbs lines lines') (hscan : scanLines .rbs lines = .ok forest) :
    ∃ forest', scanLines .rbs lines' = .ok forest' ∧ harvest forest' = harvest forest := by
  cases h with
  | @interface before inside after opener closer name opens balanced closes =>
    obtain ⟨declared, members, -, -, hframe, hempty⟩ := contributes_emptied opens balanced closes
    have hsame : List.Forall₂ HarvestedAlike
        (declared ++ FrameKind.yield members (.declaration .interfaceDef name))
        (declared ++ FrameKind.yield [] (.declaration .interfaceDef name)) :=
      List.rel_append (List.forall₂_same.mpr fun _ _ _ => rfl)
        (.cons (harvestedAlike_interface name members []) .nil)
    have hagree := agree_replace (fun _ _ => rfl) congruent_harvestedAlike hframe hempty hsame
      before after
    rw [lines_frame] at hscan
    obtain ⟨forest', hscan', hforest⟩ := exists_of_agree hagree hscan
    exact ⟨forest', hscan', (harvestAllIn_congr hforest []).symm⟩

end Pruned

/-! ## Whole files -/

namespace Signature

/-- **Opaque bodies contribute nothing, and transparent ones lose nothing.** -/
theorem scan_pruned (source source' : Text) :
    (∀ forest, scan .rbi source = .ok forest →
      Relation.ReflTransGen (Pruned .rbi) source.lines source'.lines →
        scan .rbi source' = .ok forest) ∧
      (∀ forest, scan .rbs source = .ok forest →
        Relation.ReflTransGen (Pruned .rbs) source.lines source'.lines →
          ∃ forest', scan .rbs source' = .ok forest' ∧ harvest forest' = harvest forest) ∧
      ∀ format forest, scan format source = .ok forest → ∀ before opener rest kind,
        source.lines = before ++ opener :: rest → LineRole.of format opener = .opening kind →
          ∃ inside closer after, rest = inside ++ closer :: after ∧
            Nesting.Balanced format inside ∧ LineRole.of format closer = .closing := by
  simp only [scan_eq]
  refine ⟨fun forest hscan hpruned => ?_, fun forest hscan hpruned => ?_, ?_⟩
  · generalize source'.lines = lines' at hpruned ⊢
    induction hpruned with
    | refl => exact hscan
    | tail _ hlast ih => exact hlast.scan_rbi ih
  · generalize source'.lines = lines' at hpruned ⊢
    induction hpruned with
    | refl => exact ⟨forest, hscan, rfl⟩
    | tail _ hlast ih =>
      obtain ⟨forest', hscan', hharvest'⟩ := ih
      obtain ⟨forest'', hscan'', hharvest''⟩ := hlast.scan_rbs hscan'
      exact ⟨forest'', hscan'', hharvest''.trans hharvest'⟩
  · intro format forest hscan before opener rest kind hlines opens
    rw [← scan_eq] at hscan
    have hbalanced := balanced_of_scan hscan
    rw [hlines] at hbalanced
    exact hbalanced.exists_closer opens

/-- A constant in a method is left out, one in a singleton class is not, and a class in an interface
may be. -/
theorem scan_pruned_nested :
    let rbi : Text := "class A\n def f\n  B = 1\n end\n class << self\n  C = 2\n end\nend"
    let rbi' : Text := "class A\n def f\n end\n  C = 2\nend"
    let rbs : Text := "interface _I\n class J\n end\nend\nclass K\nend"
    let rbs' : Text := "interface _I\nend\nclass K\nend"
    let body : List Text := ["  B = 1", " end", " class << self", "  C = 2", " end", "end"]
    (scan .rbi rbi = .ok [.node .classDef "A" [.leaf .constantDef "C"]] ∧
      scan .rbi rbi' = .ok [.node .classDef "A" [.leaf .constantDef "C"]]) ∧
    (scan .rbs rbs = .ok [.node .interfaceDef "_I" [.leaf .classDef "J"], .leaf .classDef "K"] ∧
      ∃ forest, scan .rbs rbs' = .ok forest ∧ harvest forest = [⟨"K", "K"⟩]) ∧
    ∃ inside closer after, body = inside ++ closer :: after ∧ Nesting.Balanced .rbi inside ∧
      LineRole.of .rbi closer = .closing := by
  intro rbi rbi' rbs rbs' body
  have hneutral : ∀ {line : Text}, LineRole.of .rbi line = .neutral → Nesting.Balanced .rbi [line] :=
    fun h => (Nested.neutral h .nil).balanced
  have hclass : Nesting.Balanced .rbs [" class J", " end"] :=
    (@Nested.frame .rbs " class J" " end" [] [] (.declaration .classDef "J") (by decide +kernel)
      (by decide +kernel) .nil .nil).balanced
  -- The constant in the method goes first, and then the lines around the other one.
  let between : List Text := ["class A", " def f", " end", " class << self", "  C = 2", " end", "end"]
  have hlines : rbi.lines = ("class A" : Text) :: (" def f" : Text) :: body := by decide +kernel
  have hmethod : Pruned .rbi rbi.lines between := hlines ▸
    @Pruned.body ["class A"] ["  B = 1"] [" class << self", "  C = 2", " end", "end"] " def f" " end"
      (by decide +kernel) (hneutral (by decide +kernel)) (by decide +kernel)
  have hlines' : rbi'.lines = ["class A", " def f", " end", "  C = 2", "end"] := by decide +kernel
  have hsingleton : Pruned .rbi between rbi'.lines := hlines' ▸
    @Pruned.singleton ["class A", " def f", " end"] ["  C = 2"] ["end"] " class << self" " end"
      (by decide +kernel) (hneutral (by decide +kernel)) (by decide +kernel)
  have hinterface : Pruned .rbs rbs.lines rbs'.lines :=
    @Pruned.interface [] [" class J", " end"] ["class K", "end"] "interface _I" "end" "_I"
      (by decide +kernel) hclass (by decide +kernel)
  obtain ⟨hrbi, -, hclosed⟩ := scan_pruned rbi rbi'
  obtain ⟨-, hrbs, -⟩ := scan_pruned rbs rbs'
  have hscan : scan .rbi rbi = .ok [.node .classDef "A" [.leaf .constantDef "C"]] := rfl
  have hscan' : scan .rbs rbs =
      .ok [.node .interfaceDef "_I" [.leaf .classDef "J"], .leaf .classDef "K"] := rfl
  exact ⟨⟨hscan, hrbi _ hscan ((Relation.ReflTransGen.single hmethod).tail hsingleton)⟩,
    ⟨hscan', hrbs _ hscan' (.single hinterface)⟩,
    hclosed .rbi _ hscan ["class A"] " def f" body .code hlines (by decide +kernel)⟩

end Signature
end DocTypes
