import Backprop.Proofs.Exact
import Backprop.Proofs.Graph.Forward
import Backprop.Proofs.Recording

namespace Backprop

variable {α : Type} [Scalar α]

def total : List α → α
  | [] => 0
  | xs => Scalar.sum xs

namespace Graph

/-- The values that reach a node: those of its sources that stand before it and have one, each as
often as it is connected. -/
def arrivals (g : Graph α) (connections : List Connection) (v : Vector (Option α) g.size)
    (i : Fin g.size) : List α :=
  ((g.sources connections i).filter (standsBefore g.order · i)).filterMap v.get

/-- The evaluation gives every node of the order, and no other, the value that its kind asks for. -/
structure Interprets (g : Graph α) (connections : List Connection) (outputId : String)
    (labels : List String) (store : ParameterStore α) (row : Row α) (e : Evaluation α g.size) :
    Prop where
  unevaluated : ∀ i, i ∉ g.order → e.values.get i = none
  input : ∀ i ∈ g.order, (g.node i).kind = .input →
    e.values.get i = some (row.look labels (g.node i).label)
  bias : ∀ i ∈ g.order, (g.node i).kind = .bias →
    ∃ p ∈ store.params, p.node = i ∧ e.values.get i = some p.value
  /-- A weight is bare if no connection was declared into it. -/
  bareWeight : ∀ i ∈ g.order, (g.node i).kind = .weight →
    (∀ c ∈ connections, c.target ≠ (g.node i).id) →
      ∃ p ∈ store.params, p.node = i ∧ e.values.get i = some p.value
  weight : ∀ i ∈ g.order, (g.node i).kind = .weight →
    (∃ c ∈ connections, c.target = (g.node i).id) →
      ∃ p ∈ store.params, p.node = i ∧
        e.values.get i = some (total (g.arrivals connections e.values i) * p.value)
  neuron : ∀ i ∈ g.order, (g.node i).kind = .neuron ∨ (g.node i).kind = .activation →
    e.values.get i = some
      (Scalar.activate (g.node i).activation (total (g.arrivals connections e.values i)))
  output : ∀ i ∈ g.order, (g.node i).kind = .output →
    e.values.get i = some (total (g.arrivals connections e.values i))
  prediction : e.prediction = ((g.indexOf? outputId).bind e.values.get).getD 0

variable {nodes : List (Node α)} {connections : List Connection} {order : List String}
  {options : Options} {g : Graph α} {store : ParameterStore α} {labels : List String} {row : Row α}
  {e : Evaluation α g.size}

theorem incomingSum_known (h : build nodes connections order options = .ok g)
    (v : Vector (Option α) g.size) (i : Fin g.size) :
    g.incomingSum (known g.order i v) i = total (g.arrivals connections v i) := by
  have harrivals : (g.incoming.get i).filterMap (known g.order i v).get =
      g.arrivals connections v i := by
    rw [get_incoming h, arrivals, List.filterMap_filter]
    apply List.filterMap_congr
    intro j _
    exact get_known _ _ _ _
  rw [incomingSum, harrivals]
  rfl

theorem Interprets.solves (h : build nodes connections order options = .ok g) (hs : store.Fits g)
    (he : g.Interprets connections options.output labels store row e) :
    g.Solves (g.env labels store row) e.values := by
  have hsum := incomingSum_known h e.values
  intro i
  by_cases hi : i ∈ g.order
  · rw [if_pos hi, nodeValue]
    cases hk : (g.node i).kind with
    | input => exact he.input i hi hk
    | bias =>
      obtain ⟨p, hp, hn, hv⟩ := he.bias i hi hk
      rw [hv, ← hs.valueOf_eq hp, hn]
      rfl
    | weight =>
      by_cases hd : g.hasDeclaredInputs.get i
      · obtain ⟨p, hp, hn, hv⟩ := he.weight i hi hk ((get_hasDeclaredInputs h i).1 hd)
        rw [hv, if_pos hd, hsum, ← hs.valueOf_eq hp, hn]
        rfl
      · have hbare : ∀ c ∈ connections, c.target ≠ (g.node i).id := by
          intro c hc ht
          exact hd ((get_hasDeclaredInputs h i).2 ⟨c, hc, ht⟩)
        obtain ⟨p, hp, hn, hv⟩ := he.bareWeight i hi hk hbare
        rw [hv, if_neg hd, ← hs.valueOf_eq hp, hn]
        rfl
    | neuron =>
      rw [he.neuron i hi (.inl hk), ← hsum]
    | activation =>
      rw [he.neuron i hi (.inr hk), ← hsum]
    | output =>
      rw [he.output i hi hk, ← hsum]
  · rw [if_neg hi]
    exact he.unevaluated i hi

theorem Solves.interprets (h : build nodes connections order options = .ok g) (hs : store.Fits g)
    (hv : g.Solves (g.env labels store row) e.values)
    (hp : e.prediction = (g.output.bind e.values.get).getD 0) :
    g.Interprets connections options.output labels store row e := by
  have hsum := incomingSum_known h e.values
  have hnode (i : Fin g.size) (hi : i ∈ g.order) := (hv i).trans (if_pos hi)
  simp only [nodeValue, hsum] at hnode
  have hown {i : Fin g.size} (hk : (g.node i).kind.isTrainable) :
      ∃ p ∈ store.params, p.node = i ∧ (g.env labels store row).parameter i = p.value :=
    hs.exists_valueOf hk
  refine {
    unevaluated := fun i hi => (hv i).trans (if_neg hi)
    input := ?_
    bias := ?_
    bareWeight := ?_
    weight := ?_
    neuron := ?_
    output := ?_
    prediction := (output_eq h) ▸ hp }
  · intro i hi hk
    rw [hnode i hi, hk]
    rfl
  · intro i hi hk
    obtain ⟨p, hp, hn, hval⟩ := hown (i := i) (by rw [hk]; rfl)
    refine ⟨p, hp, hn, ?_⟩
    rw [hnode i hi, hk, ← hval]
  · intro i hi hk hbare
    obtain ⟨p, hp, hn, hval⟩ := hown (i := i) (by rw [hk]; rfl)
    have hd : ¬g.hasDeclaredInputs.get i = true := by
      intro hd
      obtain ⟨c, hc, ht⟩ := (get_hasDeclaredInputs h i).1 hd
      exact hbare c hc ht
    refine ⟨p, hp, hn, ?_⟩
    rw [hnode i hi, hk, ← hval]
    exact congrArg some (if_neg hd)
  · intro i hi hk hd
    obtain ⟨p, hp, hn, hval⟩ := hown (i := i) (by rw [hk]; rfl)
    refine ⟨p, hp, hn, ?_⟩
    rw [hnode i hi, hk, ← hval]
    exact congrArg some (if_pos ((get_hasDeclaredInputs h i).2 hd))
  · intro i hi hk
    rw [hnode i hi]
    rcases hk with hk | hk
    · rw [hk]
    · rw [hk]
  · intro i hi hk
    rw [hnode i hi, hk]

theorem interprets_iff (h : build nodes connections order options = .ok g) (hs : store.Fits g) :
    g.Interprets connections options.output labels store row e ↔
      e = ⟨g.values (g.env labels store row), g.prediction (g.env labels store row)⟩ := by
  have hn := build_order_nodup h
  constructor
  · intro he
    have hv := (solves_iff hn).1 (he.solves h hs)
    have hp := he.prediction
    rw [← output_eq h, hv] at hp
    cases e with
    | mk values prediction =>
      cases hv
      cases hp
      rfl
  · rintro rfl
    exact (solves_values hn _).interprets h hs rfl

end Graph

/-- An evaluation from the tape succeeds and has the properties of an interpretation, which no other
evaluation has. -/
theorem Evaluator.evaluate_interprets {nodes : List (Node α)} {connections : List Connection}
    {order : List String} {options : Graph.Options} {g : Graph α} {store : ParameterStore α}
    (h : Graph.build nodes connections order options = .ok g) (hs : store.Fits g)
    (labels : List String) (row : Row α) :
    ∃ e, (Evaluator.new g labels).evaluate store row = .ok e ∧
      ∀ e', g.Interprets connections options.output labels store row e' ↔ e' = e := by
  refine ⟨_, evaluate_new hs labels row, ?_⟩
  intro e'
  exact Graph.interprets_iff h hs

/-- A lenient graph: `late` and `n` itself reach `n` too late, `u` is not evaluated, and what leads
into `w` does not exist, which does not make it bare. -/
theorem Evaluator.evaluate_interprets_lenient :
    let nodes : List (Node ℚ) := [⟨"x", .input, some "x", .linear, 0⟩,
      ⟨"u", .bias, none, .linear, 1⟩, ⟨"w", .weight, none, .linear, 3⟩,
      ⟨"v", .weight, none, .linear, 2⟩, ⟨"n", .neuron, none, .linear, 0⟩,
      ⟨"late", .bias, none, .linear, 5⟩, ⟨"output", .output, none, .linear, 0⟩]
    let connections : List Connection := [⟨"ghost", "w"⟩, ⟨"x", "n"⟩, ⟨"n", "n"⟩, ⟨"late", "n"⟩,
      ⟨"u", "n"⟩, ⟨"x", "n"⟩, ⟨"n", "output"⟩, ⟨"v", "output"⟩, ⟨"w", "output"⟩]
    let order := ["x", "w", "v", "ghost", "n", "late", "x", "output"]
    let options : Graph.Options := { mode := .lenient }
    let g : Graph ℚ := {
      size := 7
      nodes := ⟨nodes.toArray, rfl⟩
      order := [0, 2, 3, 4, 5, 6]
      incoming := #v[[], [], [], [], [0, 4, 5, 1, 0], [], [4, 3, 2]]
      hasDeclaredInputs := #v[false, false, true, false, true, false, true]
      output := some 6
      mode := .lenient }
    let store : ParameterStore ℚ := ⟨#[⟨1, 1, 0⟩, ⟨2, 3, 0⟩, ⟨3, 2, 0⟩, ⟨5, 5, 0⟩]⟩
    let row : Row ℚ := ⟨[7, 8], 0⟩
    let e : Evaluation ℚ 7 :=
      ⟨#v[some 7, none, some 0, some 2, some 14, some 5, some 16], 16⟩
    Graph.build nodes connections order options = .ok g ∧ store.Fits g ∧
      (Evaluator.new g ["x", "x"]).evaluate store row = .ok e ∧
      g.Interprets connections options.output ["x", "x"] store row e := by
  intro nodes connections order options g store row e
  have hb : Graph.build nodes connections order options = .ok g := by cbv
  have hs : store.Fits g := rfl
  obtain ⟨e', he', hiff⟩ := evaluate_interprets hb hs ["x", "x"] row
  have hv : g.values (g.env ["x", "x"] store row) = e.values := by decide +kernel
  have hp : g.prediction (g.env ["x", "x"] store row) = e.prediction := by decide +kernel
  have he : (Evaluator.new g ["x", "x"]).evaluate store row = .ok e := by
    rw [evaluate_new hs, hv, hp]
    rfl
  rw [he'] at he
  cases he
  exact ⟨hb, hs, he', (hiff e).2 rfl⟩

end Backprop
