import Mathlib.Logic.Function.Iterate
import PlotAdvisor.Proofs.NormalForm

/-! What the normal form keeps of an element id, and what a second pass changes. All of a pass but its last step only
touches the beginning of an id; the last step takes one holder out, and with a `set_` also the argument behind it. -/
set_option autoImplicit false

namespace PlotAdvisor.Elements

open Text

/-! ## The argument part -/

def argumentPart (id : String) : String := fromFirst '@' id

theorem argumentPart_append {p : String} (h : '@' ∉ p.toList) (s : String) :
    argumentPart (p ++ s) = argumentPart s :=
  fromFirst_append h s

theorem argumentPart_at (s : String) : argumentPart ("@" ++ s) = "@" ++ s := by
  apply String.toList_injective
  simp [argumentPart, fromFirst]

theorem length_fromFirst_le (c : Char) (s : String) : (fromFirst c s).length ≤ s.length := by
  rw [← String.length_toList, ← String.length_toList, fromFirst, String.toList_ofList]
  exact (List.dropWhile_sublist _).length_le

theorem argumentPart_fromInteractive (functions : List String) (id : String) :
    argumentPart (fromInteractive functions id) = argumentPart id := by
  rcases fromInteractive_cases functions id with h | ⟨r, hid, h⟩
  · rw [h]
  · rw [h, hid, argumentPart_append (by decide), argumentPart_append (by decide)]

theorem argumentPart_shorten {n : Normalizer} (hn : HasShippedForms n) (id : String) :
    argumentPart (n.shorten id) = argumentPart id := by
  unfold Normalizer.shorten
  cases h : replaceBeginning n.shortForms id with
  | none => rfl
  | some r =>
    obtain ⟨path, v, rest, hv, rfl, rfl, -⟩ := replaceBeginning_some h
    have hrows : ∀ row ∈ shippedRows, '@' ∉ row.1.toList ∧ '@' ∉ row.2.toList := by decide +kernel
    obtain ⟨hpath, hvalue⟩ := hrows (path, v) (mem_shippedRows hn hv)
    rw [Option.getD_some, argumentPart_append hvalue, argumentPart_append hpath]

theorem argumentPart_shortened {n : Normalizer} (hn : HasShippedForms n) (id : String) :
    argumentPart (n.shorten (fromInteractive n.functions id)) = argumentPart id := by
  rw [argumentPart_shorten hn, argumentPart_fromInteractive]

theorem argumentPart_of_member {id holder member tail : String} (h : IsMember id holder member tail) :
    argumentPart id = argumentPart tail := by
  have hholders : ∀ x ∈ ["gca", "gcf", "figure"], '@' ∉ x.toList := by decide
  have hholder := hholders holder h.holder_mem
  rw [h.eq, argumentPart_append (by decide), argumentPart_append (by simp [hholder]), argumentPart_append h.no_at]

def DropsArgument (functions : List String) (id : String) : Prop :=
  ∃ holder g argument, IsMember id holder ("set_" ++ g) ("@" ++ argument) ∧
    "set_" ++ g ∉ functions ∧ g ∈ functions

theorem argumentPart_fromCurrent_iff (functions : List String) (id : String) :
    argumentPart (fromCurrent functions id) = argumentPart id ↔ ¬ DropsArgument functions id := by
  constructor
  · rintro hsame ⟨holder, g, argument, h, hset, hg⟩
    have hat : '@' ∉ g.toList := fun hmem => h.no_at (by simp [hmem])
    rw [fromCurrent_of_setter h hset hg, argumentPart_of_member h, argumentPart_append (by decide),
      argumentPart_append hat, fromFirst_append (by decide)] at hsame
    -- what is left is too short to be the argument
    have hleft : (argumentPart (fromFirst '.' argument)).length ≤ argument.length :=
      (length_fromFirst_le '@' _).trans (length_fromFirst_le '.' argument)
    rw [hsame, argumentPart_at, String.length_append] at hleft
    have hone : "@".length = 1 := rfl
    omega
  · intro hkeep
    rcases fromCurrent_cases functions id with
      ⟨-, h⟩ | ⟨holder, member, tail, hm, -, h⟩ | ⟨holder, g, tail, hm, hset, hg, h⟩
    · rw [h]
    · rw [h, argumentPart_of_member hm, argumentPart_append (by decide), argumentPart_append hm.no_at]
    · have hat : '@' ∉ g.toList := fun hmem => hm.no_at (by simp [hmem])
      rw [h, argumentPart_of_member hm, argumentPart_append (by decide), argumentPart_append hat]
      -- nothing stands between the setter and the next dot
      cases htail : tail.toList with
      | nil => simp [argumentPart, fromFirst, htail]
      | cons c cs =>
        rcases hm.tail_begins c (by simp [htail]) with rfl | rfl
        · simp [argumentPart, fromFirst, htail]
        · have hargument : tail = "@" ++ String.ofList cs := by
            apply String.toList_injective
            simp [htail]
          exact absurd ⟨holder, g, String.ofList cs, hargument ▸ hm, hset, hg⟩ hkeep

/-- The argument part of an id stays as it is exactly when the id does not name, once its beginning is shortened, a
setter with an argument where the plotting module has the function but not the setter. Then there is an argument
after the pass exactly when there was one before it. -/
theorem argument_kept_iff (n : Normalizer) (hn : HasShippedForms n) (id : String) :
    (argumentPart (n.simplify id) = argumentPart id ↔
      ¬ DropsArgument n.functions (n.shorten (fromInteractive n.functions id))) ∧
    (¬ DropsArgument n.functions (n.shorten (fromInteractive n.functions id)) →
      ('@' ∈ (n.simplify id).toList ↔ '@' ∈ id.toList)) := by
  have hbegin : argumentPart (n.shorten (fromInteractive n.functions id)) = argumentPart id := by
    rw [argumentPart_shorten hn, argumentPart_fromInteractive]
  have hkept : argumentPart (n.simplify id) = argumentPart id ↔
      ¬ DropsArgument n.functions (n.shorten (fromInteractive n.functions id)) := by
    rw [Normalizer.simplify, ← hbegin]
    exact argumentPart_fromCurrent_iff n.functions _
  refine ⟨hkept, fun hdrops => not_iff_not.1 ?_⟩
  rw [← fromFirst_eq_empty_iff, ← fromFirst_eq_empty_iff]
  exact iff_of_eq (congrArg (· = "") (hkept.2 hdrops))

def shippedWith (functions : List String) : Normalizer := ⟨Table.ofList shippedRows, .empty, functions⟩

theorem argument_kept_iff_title :
    HasShippedForms (shippedWith ["title"]) ∧
    argumentPart ((shippedWith ["title"]).simplify "matplotlib.pyplot.gca.set_title@fontsize") ≠
      argumentPart "matplotlib.pyplot.gca.set_title@fontsize" := by
  have hn : HasShippedForms (shippedWith ["title"]) := (hasShippedForms_iff _).2 rfl
  refine ⟨hn, fun hkept => ?_⟩
  refine (argument_kept_iff (shippedWith ["title"]) hn _).1.1 hkept ⟨"gca", "title", "fontsize", ?_, ?_, ?_⟩
  · exact ⟨by decide, by decide, by decide, by decide, by simp⟩
  · decide
  · decide

/-- The argument of a setter goes with its holder. -/
theorem setter_drops_argument :
    (shippedWith ["title"]).simplify "plt.gca.set_title@fontsize" = "plt.title" ∧
    argumentPart "plt.gca.set_title@fontsize" = "@fontsize" ∧ argumentPart "plt.title" = "" := by
  decide +kernel

/-! ## A second pass -/

def Settled (n : Normalizer) (id : String) : Prop := fromInteractive n.functions id = id ∧ n.shorten id = id

theorem simplify_of_settled {n : Normalizer} {id : String} (h : Settled n id) :
    n.simplify id = fromCurrent n.functions id := by
  rw [Normalizer.simplify, h.1, h.2]

theorem upTo_dot (p s : String) (h : '.' ∉ p.toList) : upTo '.' (p ++ "." ++ s) = p := by
  rw [String.append_assoc, upTo_append h]
  have hnone : upTo '.' ("." ++ s) = "" := by
    apply String.toList_injective
    simp [upTo]
  rw [hnone, String.append_empty]

/-- Every entry of the short forms begins with the module, and no short form does. -/
theorem first_shippedRows : ∀ row ∈ shippedRows, upTo '.' row.1 = "matplotlib" ∧
    upTo '.' row.2 ≠ "matplotlib" ∧ upTo '.' row.2 ≠ "pylab" := by
  decide +kernel

theorem settled_of_first {n : Normalizer} (hn : HasShippedForms n) {id : String}
    (hmodule : upTo '.' id ≠ "matplotlib") (hpylab : upTo '.' id ≠ "pylab") : Settled n id := by
  refine ⟨fromInteractive_of_first_ne n.functions hpylab, ?_⟩
  unfold Normalizer.shorten
  cases h : replaceBeginning n.shortForms id with
  | none => rfl
  | some r =>
    obtain ⟨path, v, rest, hv, rfl, -, hrest⟩ := replaceBeginning_some h
    rw [upTo_append_rest hrest] at hmodule
    exact absurd (first_shippedRows (path, v) (mem_shippedRows hn hv)).1 hmodule

theorem settled_shorten {n : Normalizer} (hn : HasShippedForms n) (id : String) :
    Settled n (n.shorten (fromInteractive n.functions id)) := by
  unfold Normalizer.shorten
  cases h : replaceBeginning n.shortForms (fromInteractive n.functions id) with
  | some r =>
    obtain ⟨path, v, rest, hv, -, rfl, hrest⟩ := replaceBeginning_some h
    obtain ⟨-, hmodule, hpylab⟩ := first_shippedRows (path, v) (mem_shippedRows hn hv)
    rw [Option.getD_some]
    exact settled_of_first hn (by rwa [upTo_append_rest hrest]) (by rwa [upTo_append_rest hrest])
  | none =>
    -- no short form applies, so that no module was put in front
    have hsame : fromInteractive n.functions id = id := by
      refine (fromInteractive_cases n.functions id).resolve_right ?_
      rintro ⟨r, -, hr⟩
      have hfirst : upTo '.' (fromInteractive n.functions id) = "matplotlib" := by
        rw [hr]
        exact upTo_dot "matplotlib" ("pyplot" ++ "." ++ r) (by decide)
      have hnone := replaceBeginning_none h
      rw [hfirst, get?_shortForms_module hn] at hnone
      exact nomatch hnone
    rw [hsame] at h
    rw [hsame, Option.getD_none]
    exact ⟨hsame, by rw [Normalizer.shorten, h, Option.getD_none]⟩

theorem settled_simplify {n : Normalizer} (hn : HasShippedForms n) (id : String) : Settled n (n.simplify id) := by
  rw [Normalizer.simplify]
  have hplt (r : String) : Settled n ("plt" ++ "." ++ r) := by
    have hfirst : upTo '.' ("plt" ++ "." ++ r) = "plt" := upTo_dot "plt" r (by decide)
    exact settled_of_first hn (by rw [hfirst]; decide) (by rw [hfirst]; decide)
  rcases fromCurrent_cases n.functions (n.shorten (fromInteractive n.functions id)) with
    ⟨-, h⟩ | ⟨_, _, _, -, -, h⟩ | ⟨_, _, _, -, -, -, h⟩
  · rw [h]
    exact settled_shorten hn id
  · rw [h]
    exact hplt _
  · rw [h]
    exact hplt _

theorem simplify_eq_self_iff {n : Normalizer} {id : String} (h : Settled n id) :
    n.simplify id = id ↔ ¬ Movable n.functions id := by
  rw [simplify_of_settled h]
  exact fromCurrent_eq_self_iff n.functions id

theorem simplify_iterate {n : Normalizer} (hn : HasShippedForms n) (k : Nat) (id : String) (h : Settled n id)
    (hk : dots id ≤ k) : n.simplify (n.simplify^[k] id) = n.simplify^[k] id := by
  by_cases hmov : Movable n.functions id
  · have hdots := dots_fromCurrent hmov
    rw [← simplify_of_settled h] at hdots
    cases k with
    | zero => omega
    | succ k =>
      rw [Function.iterate_succ_apply]
      exact simplify_iterate hn k (n.simplify id) (settled_simplify hn id) (by omega)
  · have hself := (simplify_eq_self_iff h).2 hmov
    rw [Function.iterate_fixed hself, hself]

/-- A second pass changes nothing exactly when the first leaves no member that the plotting module has as a function.
Further passes change nothing once there are more of them than the id has dots. -/
theorem simplify_simplify_iff (n : Normalizer) (hn : HasShippedForms n) (id : String) :
    (n.simplify (n.simplify id) = n.simplify id ↔ ¬ Movable n.functions (n.simplify id)) ∧
    ∀ k, dots (n.simplify id) < k → n.simplify (n.simplify^[k] id) = n.simplify^[k] id := by
  refine ⟨simplify_eq_self_iff (settled_simplify hn id), fun k hk => ?_⟩
  obtain ⟨j, rfl⟩ : ∃ j, k = j + 1 := ⟨k - 1, by omega⟩
  rw [Function.iterate_succ_apply]
  exact simplify_iterate hn j (n.simplify id) (settled_simplify hn id) (by omega)

theorem simplify_simplify_iff_suptitle :
    let n := shippedWith ["figure", "suptitle"]
    HasShippedForms n ∧ n.simplify (n.simplify "pylab.figure.suptitle") = n.simplify "pylab.figure.suptitle" ∧
      dots (n.simplify "plt.gcf.figure.suptitle") < 3 ∧
      n.simplify (n.simplify^[3] "plt.gcf.figure.suptitle") = n.simplify^[3] "plt.gcf.figure.suptitle" := by
  intro n
  have hn : HasShippedForms n := (hasShippedForms_iff n).2 rfl
  have hdots : dots (n.simplify "plt.gcf.figure.suptitle") < 3 := by decide +kernel
  refine ⟨hn, (simplify_simplify_iff n hn _).1.2 ?_, hdots, (simplify_simplify_iff n hn _).2 3 hdots⟩
  rw [← fromCurrent_eq_self_iff]
  decide +kernel

/-- With the functions that come with the library, a pass over two holders leaves the second. -/
theorem second_pass_changes :
    ∃ n, Normalizer.ofSources Knowledge.Sources.shipped = .ok n ∧
      n.simplify "plt.gca.figure.suptitle" = "plt.figure.suptitle" ∧
      n.simplify "plt.figure.suptitle" = "plt.suptitle" := by
  obtain ⟨n, hn, hforms, hfunctions⟩ := ofSources_shipped
  have hfigure : "figure" ∈ n.functions := by
    rw [hfunctions]
    exact Knowledge.mem_shippedFunctions 35 "figtext,Add text to figure." "figure,Creates a new figure."
      rfl rfl (by decide) rfl
  have hsuptitle : "suptitle" ∈ n.functions := by
    rw [hfunctions]
    exact Knowledge.mem_shippedFunctions 107 "subplots_adjust,Tune the subplot layout."
      "suptitle,Add a centered title to the figure." rfl rfl (by decide) rfl
  have htwo : IsMember "plt.gca.figure.suptitle" "gca" "figure" ".suptitle" :=
    ⟨by decide, by decide, by decide, by decide, by simp⟩
  have hone : IsMember "plt.figure.suptitle" "figure" "suptitle" "" :=
    ⟨by decide, by decide, by decide, by decide, by simp⟩
  refine ⟨n, hn, ?_, ?_⟩
  · rw [simplify_of_settled (settled_of_first hforms (by decide) (by decide)), fromCurrent_of_member htwo,
      if_pos hfigure]
    rfl
  · rw [simplify_of_settled (settled_of_first hforms (by decide) (by decide)), fromCurrent_of_member hone,
      if_pos hsuptitle]
    rfl

end PlotAdvisor.Elements
