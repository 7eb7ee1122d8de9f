import PlotAdvisor.Sketch.Recorder

/-! The sample scripts. -/
set_option autoImplicit false

namespace PlotAdvisor.Sketch

open Thing

/-! ## Numbers -/

def upFrom (first : Int) (count : Nat) : List Int := (List.range count).map fun (i : Nat) => first + (i : Int)

def spaced (first last step : Float) : List Float :=
  let count := (Float.ceil ((last - first) / step)).toUInt64.toNat
  let gap := (first + step) - first
  (List.range count).map fun (i : Nat) => first + Decimal.ofInt i * gap

/-- The middle of integers that are sorted and whose number is odd. -/
def middle (ns : List Int) : Float := Decimal.ofInt (ns.getD (ns.length / 2) 0)

def everySecond {α : Type} : List α → List α
  | _ :: x :: xs => x :: everySecond xs
  | _ => []

def placeOfLargest (xs : List Float) : Nat :=
  (xs.zipIdx.foldl (fun (best : Nat × Float) (x, i) => if best.2 < x then (i, x) else best)
    (0, xs.headD 0.0)).1

/-! ## Bars on two axes -/

def pairOfGroups (ax : Thing) (left right : List Float) (tickLabels : List String)
    (label title letter : String) (names : List String) : Script Unit := do
  let leftPlaces := upFrom 0 left.length
  let rightPlaces := upFrom (left.length + 1) right.length
  let width : Float := 1.0
  let colors ← plot.invoke "get_cmap" ["Pastel1", 9]
  let hatches := ["/", ".", "\\"]
  let _ ← library.invoke "rc" ["font"] [("family", "serif"), ("size", 18), ("serif", "Times New Roman")]
  let bar (place : Int) (height : Float) (i : Nat) : Script Thing := do
    let draw ← ax.attr "bar"
    let color ← colors.call [(i : Int)]
    draw.call [place, height, 1] [("color", color), ("hatch", hatches.getD i "")]
  let bars ← (leftPlaces.zip left).zipIdx.mapM fun ((p, h), i) => bar p h i
  let _ ← (rightPlaces.zip right).zipIdx.mapM fun ((p, h), i) => bar p h i
  let _ ← ax.invoke "set_ylabel" [label]
  let _ ← ax.invoke "set_xticks" [reals [middle leftPlaces + 0.5 * width, middle rightPlaces + 0.5 * width]]
  let _ ← ax.invoke "set_xticklabels" [texts (tickLabels.map fun t => Text.replace t " " "\n")]
  let _ ← ax.invoke "set_title" [title]
  let _ ← ax.invoke "legend" [bars, texts names] [("loc", "lower center"), ("ncol", (names.length : Int)),
    ("bbox_to_anchor", reals [0.5, -0.36]), ("prop", .table [("size", 16)]), ("shadow", true)]
  let limit (i : Nat) : Script Numeric := do
    (← (← ax.invoke "get_xlim" []).item (i : Int)).value
  let setLimits ← ax.attr "set_xlim"
  let low := (← limit 0) - .real (0.5 * width)
  let high := (← limit 1) + .real (0.5 * width)
  let _ ← setLimits.call [low, high]
  let write ← ax.attr "text"
  let place := half (← limit 1)
  let _ ← write.call [place, (-0.4 : Float), letter, .table [("size", 18)]]

def twoAxes : Script Unit := do
  let parts ← (← plot.invoke "subplots" [] [("figsize", .list [12, 4]), ("ncols", 2)]).unpack 2
  let axes := parts.getD 1 default
  let ticks := ["Common Vocabulary", "Longtail Vocabulary"]
  pairOfGroups (← axes.item 0) [0.62, 0.95, 0.85] [0.38, 0.62, 0.82] ticks "F1" "Page-specific Extraction"
    "(a)" ["Seal", "SealDict", "Lyretail"]
  pairOfGroups (← axes.item 1) [0.98, 0.99, 1.0] [0.12, 0.6, 0.67] ticks "MAP" "Dictionary generation"
    "(b)" ["Seisa", "Seal", "Lyretail"]

/-! ## Two curves -/

def curves (first second : List Thing) (firstLabel secondLabel xLabel yLabel : String)
    (tickLabels : List String) : Script Unit := do
  let n : Int := first.length
  let _ ← plot.invoke "figure" [] [("figsize", .list [9, 4])]
  let _ ← plot.invoke "plot" [first, "-D"] [("label", firstLabel), ("color", "#555555"), ("lw", 2),
    ("markeredgecolor", "None"), ("markersize", 6), ("zorder", 10), ("clip_on", false)]
  let _ ← plot.invoke "plot" [second, "-s"] [("label", secondLabel), ("color", "#AAAAAA"), ("lw", 2),
    ("markeredgecolor", "None"), ("markersize", 8), ("zorder", 11), ("clip_on", false)]
  let _ ← plot.invoke "xlabel" [xLabel]
  let _ ← plot.invoke "ylabel" [yLabel]
  let _ ← plot.invoke "yticks" [ints (upFrom 4 7)]
  let _ ← plot.invoke "xticks" [ints (upFrom 0 first.length), texts tickLabels] [("rotation", "45")]
  let legend ← plot.invoke "legend" [] [("fontsize", 16), ("bbox_to_anchor", reals [0.95, 0.955]), ("numpoints", 1),
    ("borderpad", 0.9), ("handlelength", 3)]
  let frame ← legend.invoke "get_frame" []
  let _ ← frame.invoke "set_facecolor" ["white"]
  let _ ← frame.invoke "set_edgecolor" ["white"]
  let axes : Script Thing := plot.invoke "gca" []
  let spine (name : String) : Script Thing := do (← (← axes).attr "spines").item name
  let _ ← (← (← axes).attr "xaxis").invoke "grid" [false]
  let _ ← (← (← axes).attr "yaxis").invoke "grid" [true] [("color", "black"), ("linestyle", "-")]
  let _ ← plot.invoke "xlim" [(-0.5 : Float), (Decimal.ofInt n - 0.5 : Float)]
  let _ ← plot.invoke "ylim" [4, 10.5]
  let _ ← (← spine "top").invoke "set_visible" [false]
  let _ ← (← spine "right").invoke "set_visible" [false]
  let _ ← (← (← axes).invoke "get_xaxis" []).invoke "tick_bottom" []
  let _ ← (← (← axes).invoke "get_yaxis" []).invoke "tick_left" []
  for tick in ← (← (← (← axes).attr "xaxis").invoke "get_major_ticks" []).items do
    tick.setAttr "tick1On" false
    tick.setAttr "tick2On" false
  let _ ← (← axes).invoke "tick_params" [] [("axis", "y"), ("direction", "out")]
  let _ ← (← spine "left").invoke "set_linewidth" [2]
  let _ ← (← spine "left").invoke "set_color" ["#888888"]
  let _ ← (← spine "bottom").invoke "set_linewidth" [2]
  let _ ← (← spine "bottom").invoke "set_color" ["#888888"]
  let _ ← (← (← axes).attr "yaxis").invoke "set_tick_params" [] [("width", 2), ("length", 5), ("color", "#888888")]

def sizesOfSolutions : Script Unit := do
  let _ ← library.invoke "rc" ["font"] [("family", "sans-serif"), ("size", 15)]
  curves
    [10.1, 7.95, 7.0, 6.5, 6.3, 6.1, 6.0, 5.8, 5.75, 5.5, 5.45, 5.4, 5.3, 5.2, 5.18, 5.1, 5.12, 5.1, 5.08, 5.01, 5.8]
    [9.5, 4.5, 8.0, 6, 4, 7, 5, 5.5, 5.5, 6, 7, 5.5, 4.5, 4, 4, 4.5, 5.5, 4.5, 5, 5, 5]
    "Average" "Median" "Solution Popularity (support)" "Solutions (Itemset) Size"
    ((upFrom 20 20).map toString ++ ["40+"])

def twoCurves : Script Unit :=
  curves
    [10.1, 7.95, 7.0, 6.5, 6.3, 6.1, 6.0, 5.8, 5.75, 5.5, 5.45, 5.4, 5.3, 5.2, 5.18, 5.1, 5.12, 5.1, 6.08, 7.01, 8.8]
    [9.5, 4.5, 6.1, 5.2, 4.1, 4, 5, 5.5, 5.5, 6, 6, 5.5, 4.5, 4, 4, 4.5, 5.5, 4.5, 5, 5, 5]
    "Curve A" "Curve B" "Foo" "Bar" ((upFrom 5 21).map toString)

/-! ## Groups of bars -/

def groupOfBars (colors : Thing) (group : Nat) (heights : List Float) (label hatch : String) : Script Unit := do
  let places := (upFrom 0 heights.length).map fun i => i * 3 + (group : Int)
  let color ← colors.call [(group : Int)]
  let bars ← (← plot.invoke "bar" [ints places, reals heights] [("color", color)]).items
  for (bar, i) in bars.zipIdx do
    let _ ← bar.invoke "set_width" [0.8]
    if i = 0 then
      let _ ← bar.invoke "set_label" [label]
    let _ ← bar.invoke "set_hatch" [hatch]

def groupedBars : Script Unit := do
  let colors ← plot.invoke "get_cmap" ["Pastel1", 9]
  groupOfBars colors 0 [0.62, 0.95, 0.85] "Before" "/"
  groupOfBars colors 1 [0.38, 0.62, 0.82] "After" "\\"
  let _ ← plot.invoke "xlim" [(-1 : Int), 9]
  let _ ← plot.invoke "xticks" [ints [1, 4, 7], texts ["Adam", "Bobby", "Charlie"]]
  let _ ← plot.invoke "legend" [] [("loc", "lower center"), ("ncol", 2), ("shadow", true),
    ("bbox_to_anchor", reals [0.5, -0.2])]
  let _ ← plot.invoke "title" ["Experiment Result"]

/-! ## A pie -/

def pie : Script Unit := do
  let _ ← plot.invoke "pie" [ints [15, 30, 45, 10]] [("explode", .list [0, 0.1, 0, 0]),
    ("labels", texts ["Frogs", "Hogs", "Dogs", "Logs"]),
    ("colors", texts ["yellowgreen", "gold", "lightskyblue", "lightcoral"]), ("autopct", "%1.1f%%"),
    ("shadow", true), ("startangle", 90)]
  let title ← plot.invoke "title" ["Raining hogs and dogs"] [("y", 1.1)]
  let _ ← title.invoke "set_bbox" [.table [("facecolor", "lightskyblue"), ("edgecolor", "grey"), ("pad", 5)]]
  let _ ← plot.invoke "axis" ["equal"]

/-! ## Dots -/

def dots : Script Unit := do
  seedRandom 1
  let x ← random 50
  let y ← random 50
  let colors ← random 50
  let areas := (← random 50).map fun r => 3.141592653589793 * ((15.0 * r) * (15.0 * r))
  let _ ← plot.invoke "figure" [] [("figsize", .list [8, 6])]
  let _ ← plot.invoke "scatter" [reals x, reals y] [("s", reals areas), ("c", reals colors), ("alpha", 0.5)]
  let i := placeOfLargest areas
  let (px, py) := (x.getD i 0.0, y.getD i 0.0)
  let _ ← plot.invoke "annotate" ["biggest", reals [px, py]] [("xytext", reals [px + 0.1, py + 0.1]),
    ("arrowprops", .table [("facecolor", "black"), ("shrink", 0.05)])]
  let _ ← plot.invoke "ylim" [(-0.5 : Float), 1.5]
  let _ ← plot.invoke "xlabel" ["X"]
  let _ ← plot.invoke "ylabel" ["Y"]

/-! ## Contours -/

def plane (xs ys : List Float) (f : Float → Float → Float) : List (List Float) :=
  ys.map fun y => xs.map fun x => f x y

/-- The values of a function of two widths and two centres; the call is written down. -/
def bivariate (xs ys : List Float) (wx wy cx cy : Thing) : Script (Float → Float → Float) := do
  let _ ← functions.invoke "bivariate_normal"
    [.grid (plane xs ys fun x _ => x), .grid (plane xs ys fun _ y => y), wx, wy, cx, cy]
  let wx := (← wx.value).toFloat
  let wy := (← wy.value).toFloat
  let shift := (← cx.value).toFloat * (← cy.value).toFloat
  return fun x y => x * wx - y * wy + shift

def contours : Script Unit := do
  let settings ← library.attr "rcParams"
  settings.setItem "xtick.direction" "out"
  let settings ← library.attr "rcParams"
  settings.setItem "ytick.direction" "out"
  let xs := spaced (-3.0) 3.0 0.025
  let ys := spaced (-2.0) 2.0 0.025
  let first ← bivariate xs ys 1.0 1.0 0.0 0.0
  let second ← bivariate xs ys 1.5 0.5 1 1
  let heights := plane xs ys fun x y => 10.0 * (second x y - first x y)
  let extent := ints [-3, 3, -2, 2]
  let showImage ← plot.attr "imshow"
  let gray ← colorMaps.attr "gray"
  let image ← showImage.call [.grid heights] [("interpolation", "bilinear"), ("origin", "lower"),
    ("cmap", gray), ("extent", extent)]
  let levels := spaced (-1.2) 1.6 0.2
  let lines ← plot.invoke "contour" [.grid heights, reals levels] [("origin", "lower"), ("linewidths", 2),
    ("extent", extent)]
  let zero ← (← lines.attr "collections").item 6
  let _ ← plot.invoke "setp" [zero] [("linewidth", 4)]
  let _ ← plot.invoke "clabel" [lines, reals (everySecond levels)] [("inline", 1), ("fmt", "%1.1f"),
    ("fontsize", 14)]
  let bar ← plot.invoke "colorbar" [lines] [("shrink", 0.8), ("extend", "both")]
  let _ ← plot.invoke "title" ["Lines with colorbar"]
  let _ ← plot.invoke "flag" []
  let _ ← plot.invoke "colorbar" [image] [("orientation", "horizontal"), ("shrink", 0.8)]
  let bounds (axes : Thing) : Script (List Thing) := do
    (← (← axes.invoke "get_position" []).attr "bounds").unpack 4
  let whole ← bounds (← plot.invoke "gca" [])
  let own ← bounds (← bar.attr "ax")
  let place ← (← bar.attr "ax").attr "set_position"
  let low ← (whole.getD 1 default).value
  let height ← (whole.getD 3 default).value
  let raised : Numeric := low + .real 0.1 * height
  let lowered : Numeric := height * .real 0.8
  let _ ← place.call [.list [own.getD 0 default, raised, own.getD 2 default, lowered]]

/-! ## Short scripts -/

def threePoints : Script (Thing × List Float) := do
  let a := upFrom 0 3
  seedRandom 1
  let r ← random 3
  return (ints a, (a.zip r).map fun (n, x) => Decimal.ofInt n + x)

def brokenLines : Script Unit := do
  let (a, b) ← threePoints
  let _ ← plot.invoke "plot" [a, reals b] [("linestyle", "--")]
  let _ ← plot.invoke "xlabel" ["x"]
  let _ ← plot.invoke "ylabel" ["y"]
  let parts ← (← plot.invoke "subplots" []).unpack 2
  let axes := parts.getD 1 default
  let _ ← axes.invoke "plot" [a, reals b]
  let _ ← axes.invoke "set_title" ["hello world"]

def hello : Script Unit := do
  let _ ← plot.invoke "bar" [reals [1.0 - 0.3, 2.0 - 0.3, 3.0 - 0.3], ints [2, 3, 1], 0.3] [("color", "red"), ("label", "A")]
  let _ ← plot.invoke "bar" [ints [1, 2, 3], ints [2, 6, 2], 0.3] [("color", "blue"), ("label", "B")]
  let _ ← plot.invoke "xticks" [ints [1, 2, 3], texts ["foo", "bar", "baz"]]

def shadow : Script Unit := do
  let (a, b) ← threePoints
  let sums := b.zipIdx.map fun (x, i) => Decimal.ofInt (i : Int) + x
  let _ ← plot.invoke "plot" [a, reals b] [("linestyle", "--")]
  let _ ← plot.invoke "plot" [a, reals sums] [("linestyle", "-")]
  let _ ← plot.invoke "xlabel" ["x"]
  let _ ← plot.invoke "ylabel" ["y"]
  let _ ← plot.invoke "legend" [] [("shadow", true)]
  let _ ← plot.invoke "title" ["Shadow"]

def scripts : Table String (Script Unit) :=
  ⟨[("casestudy1", twoAxes), ("casestudy2", sizesOfSolutions), ("empty", pure ()), ("eval1", groupedBars),
    ("eval2", pie), ("eval3", dots), ("eval4", twoCurves), ("eval5", contours), ("formattest", brokenLines),
    ("helloworld", hello), ("shadow", shadow)]⟩

end PlotAdvisor.Sketch
