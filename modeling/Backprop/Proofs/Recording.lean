import Backprop.Proofs.Monad
import Backprop.Proofs.Parameter
import Backprop.Proofs.Tape.Reading

namespace Backprop

variable {α β : Type}

def Evaluator.envIn [Scalar α] [Zero β] (ev : Evaluator α) (ℓ : Translation α β)
    (store : ParameterStore α) (row : Row α) : Env β ev.graph.size where
  input i := ℓ.constant (ev.readInput row i)
  parameter i := ((store.lookUp? i).map fun (id, x) => ℓ.parameter id x).getD 0

variable [Scalar α]

theorem Tape.Reads.call [Scalar β] {ℓ : Translation α β} {t t' final : Tape α} {c : Call α}
    {h : Handle} {view : Handle → β} (hview : final.Reads ℓ view) (hc : t.call c = .ok (h, t'))
    (hpre : t'.IsPrefix final) : view h = (c.translate ℓ).result view := by
  obtain ⟨_, rfl, rfl⟩ := call_inv hc
  have he := getElem?_push t c.op (c.result t.valueAt) t.size
  rw [if_pos rfl] at he
  rw [hview _ _ (hpre _ _ he), Call.call_entry]

def ParameterStore.Backs (store : ParameterStore α) : Call α → Prop
  | .parameter id x => ∃ p, store.params[id]? = some p ∧ p.value = x
  | _ => True

namespace Evaluator

variable {ev : Evaluator α} {store : ParameterStore α} {row : Row α}
  {handles : Vector (Option Handle) ev.graph.size} {tape tape' : Tape α} {h : Handle}
  {i : Fin ev.graph.size}

theorem readParameter_eq (ev : Evaluator α) (store : ParameterStore α) (tape : Tape α)
    (i : Fin ev.graph.size) :
    ev.readParameter store tape i = match store.lookUp? i with
      | some (id, x) => tape.call (.parameter id x)
      | none => .error (.mismatch (.noParameter (ev.graph.node i).id)) := by
  rw [readParameter, ParameterStore.lookUp?]
  split
  · next hn =>
    rw [hn]
    rfl
  · next id hn =>
    obtain ⟨hid, _⟩ := Array.findIdx?_eq_some_iff_getElem.1 hn
    have hp : store.params[id]? = some store.params[id] := Array.getElem?_eq_getElem hid
    simp only [hn, ParameterStore.get, hp, Option.bind_some, Option.map_some]
    rfl

def incomingCall (ev : Evaluator α) (handles : Vector (Option Handle) ev.graph.size)
    (i : Fin ev.graph.size) : Call α :=
  match (ev.graph.incoming.get i).filterMap handles.get with
  | [] => .constant 0
  | args => .sum args

theorem sumIncoming_eq (ev : Evaluator α) (handles : Vector (Option Handle) ev.graph.size)
    (tape : Tape α) (i : Fin ev.graph.size) :
    ev.sumIncoming handles tape i = tape.call (ev.incomingCall handles i) := by
  change (match (ev.graph.incoming.get i).filterMap handles.get with
    | [] => Except.ok (tape.constant 0)
    | args => tape.sum args) = _
  rw [incomingCall]
  generalize (ev.graph.incoming.get i).filterMap handles.get = args
  cases args <;> rfl

theorem incomingCall_result [Scalar β] (ℓ : Translation α β) (view : Handle → β)
    (handles : Vector (Option Handle) ev.graph.size) (i : Fin ev.graph.size) :
    ((ev.incomingCall handles i).translate ℓ).result view =
      ev.graph.incomingSum (handles.map (·.map view)) i := by
  rw [incomingCall, Graph.incomingSum, filterMap_get_map]
  generalize (ev.graph.incoming.get i).filterMap handles.get = args
  cases args with
  | nil => exact ℓ.constant_zero
  | cons u us => rfl

theorem backs_incomingCall : store.Backs (ev.incomingCall handles i) := by
  rw [incomingCall]
  split <;> trivial

theorem sumIncoming_inv (hr : ev.sumIncoming handles tape i = .ok (h, tape')) :
    tape.call (ev.incomingCall handles i) = .ok (h, tape') := by
  rwa [sumIncoming_eq] at hr

omit [Scalar α] in
theorem backs_of_lookUp? {id : Nat} {x : α} (hx : store.lookUp? i = some (id, x)) :
    store.Backs (.parameter id x) := by
  obtain ⟨p, hp, _, hv⟩ := ParameterStore.lookUp?_inv hx
  exact ⟨p, hp, hv⟩

theorem readParameter_inv (hr : ev.readParameter store tape i = .ok (h, tape')) :
    ∃ id x, store.lookUp? i = some (id, x) ∧ tape.call (.parameter id x) = .ok (h, tape') := by
  rw [readParameter_eq] at hr
  split at hr
  · next id x hx => exact ⟨id, x, hx, hr⟩
  · cases hr

theorem envIn_parameter [Zero β] {ℓ : Translation α β} {i : Fin ev.graph.size} {id : Nat} {x : α}
    (row : Row α) (hx : store.lookUp? i = some (id, x)) :
    (ev.envIn ℓ store row).parameter i = ℓ.parameter id x := by
  simp only [envIn, hx, Option.map_some, Option.getD_some]

/-- The calls that record a node, by its kind. -/
inductive NodeCalls (ev : Evaluator α) (store : ParameterStore α) (row : Row α)
    (handles : Vector (Option Handle) ev.graph.size) (tape : Tape α) (i : Fin ev.graph.size)
    (h : Handle) (tape' : Tape α) : Prop
  | input (hk : (ev.graph.node i).kind = .input)
    (hc : tape.call (.constant (ev.readInput row i)) = .ok (h, tape'))
  | bias {id : Nat} {x : α} (hk : (ev.graph.node i).kind = .bias)
    (hx : store.lookUp? i = some (id, x)) (hc : tape.call (.parameter id x) = .ok (h, tape'))
  | weight {id : Nat} {x : α} (hk : (ev.graph.node i).kind = .weight)
    (hd : ¬ev.graph.hasDeclaredInputs.get i) (hx : store.lookUp? i = some (id, x))
    (hc : tape.call (.parameter id x) = .ok (h, tape'))
  | weighted {id : Nat} {x : α} {p s : Handle} {tape₁ tape₂ : Tape α}
    (hk : (ev.graph.node i).kind = .weight) (hd : ev.graph.hasDeclaredInputs.get i)
    (hx : store.lookUp? i = some (id, x)) (hp : tape.call (.parameter id x) = .ok (p, tape₁))
    (hs : tape₁.call (ev.incomingCall handles i) = .ok (s, tape₂))
    (hc : tape₂.call (.mul s p) = .ok (h, tape'))
  | activate {s : Handle} {tape₁ : Tape α}
    (hk : (ev.graph.node i).kind = .neuron ∨ (ev.graph.node i).kind = .activation)
    (hs : tape.call (ev.incomingCall handles i) = .ok (s, tape₁))
    (hc : tape₁.call (.activate (ev.graph.node i).activation s) = .ok (h, tape'))
  | output (hk : (ev.graph.node i).kind = .output)
    (hc : tape.call (ev.incomingCall handles i) = .ok (h, tape'))

theorem recordNode_calls (hr : ev.recordNode store row handles tape i = .ok (h, tape')) :
    ev.NodeCalls store row handles tape i h tape' := by
  rw [recordNode] at hr
  cases hk : (ev.graph.node i).kind with
  | input =>
    simp only [hk] at hr
    exact .input hk hr
  | bias =>
    simp only [hk] at hr
    obtain ⟨id, x, hx, hc⟩ := readParameter_inv hr
    exact .bias hk hx hc
  | weight =>
    simp only [hk] at hr
    obtain ⟨⟨p, tape₁⟩, hp, hr⟩ := Except.bind_eq_ok_iff.1 hr
    obtain ⟨id, x, hx, hc⟩ := readParameter_inv hp
    split at hr
    · next hd =>
      obtain ⟨⟨s, tape₂⟩, hs, hm⟩ := Except.bind_eq_ok_iff.1 hr
      exact .weighted hk hd hx hc (sumIncoming_inv hs) hm
    · next hd =>
      obtain ⟨rfl, rfl⟩ := Prod.mk.inj (Except.ok.inj hr)
      exact .weight hk hd hx hc
  | neuron | activation =>
    simp only [hk] at hr
    obtain ⟨⟨s, tape₁⟩, hs, ha⟩ := Except.bind_eq_ok_iff.1 hr
    exact .activate (by simp only [hk, true_or, or_true]) (sumIncoming_inv hs) ha
  | output =>
    simp only [hk] at hr
    exact .output hk (sumIncoming_inv hr)

/-- What recording a node leaves behind, whatever the tape is read as in the end. -/
theorem recordNode_inv (hr : ev.recordNode store row handles tape i = .ok (h, tape')) :
    tape.Grows store.Backs tape' ∧ h < tape'.size ∧
      ∀ {β : Type} [Scalar β] {ℓ : Translation α β} {final : Tape α} {view : Handle → β},
        tape'.IsPrefix final → final.Reads ℓ view →
        view h = ev.graph.nodeValue (ev.envIn ℓ store row) (handles.map (·.map view)) i := by
  unfold Graph.nodeValue
  cases recordNode_calls hr with
  | input hk hc =>
    rw [hk]
    exact ⟨.single hc trivial, Tape.call_lt hc, fun hpre hview => hview.call hc hpre⟩
  | bias hk hx hc =>
    rw [hk]
    exact ⟨.single hc (backs_of_lookUp? hx), Tape.call_lt hc, fun hpre hview =>
      (hview.call hc hpre).trans (envIn_parameter row hx).symm⟩
  | weight hk hd hx hc =>
    rw [hk]
    refine ⟨.single hc (backs_of_lookUp? hx), Tape.call_lt hc, fun hpre hview => ?_⟩
    simp only [if_neg hd]
    exact (hview.call hc hpre).trans (envIn_parameter row hx).symm
  | weighted hk hd hx hp hs hc =>
    rw [hk]
    refine ⟨((Tape.Grows.single hp (backs_of_lookUp? hx)).call hs backs_incomingCall).call hc trivial,
      Tape.call_lt hc, fun hpre hview => ?_⟩
    have hpre₂ := (Tape.call_isPrefix hc).trans hpre
    have hvs := (hview.call hs hpre₂).trans (incomingCall_result _ _ _ i)
    have hvp := (hview.call hp ((Tape.call_isPrefix hs).trans hpre₂)).trans
      (envIn_parameter row hx).symm
    simp only [if_pos hd]
    rw [← hvs, ← hvp]
    exact hview.call hc hpre
  | activate hk hs hc =>
    refine ⟨(Tape.Grows.single hs backs_incomingCall).call hc trivial, Tape.call_lt hc,
      fun hpre hview => ?_⟩
    have hvs := (hview.call hs ((Tape.call_isPrefix hc).trans hpre)).trans
      (incomingCall_result _ _ _ i)
    rcases hk with hk | hk
    all_goals
      rw [hk, ← hvs]
      exact hview.call hc hpre
  | output hk hc =>
    rw [hk]
    exact ⟨.single hc backs_incomingCall, Tape.call_lt hc, fun hpre hview =>
      (hview.call hc hpre).trans (incomingCall_result _ _ _ i)⟩

def Valid {n : Nat} (handles : Vector (Option Handle) n) (tape : Tape α) : Prop :=
  AllKnown (· < tape.size) handles

omit [Scalar α] in
theorem Valid.mono {n : Nat} {handles : Vector (Option Handle) n} (hv : Valid handles tape)
    (hs : tape.size ≤ tape'.size) : Valid handles tape' :=
  AllKnown.mono hv fun _ hu => Nat.lt_of_lt_of_le hu hs

theorem incomingCall_valid (hv : Valid handles tape) :
    ∀ u ∈ (ev.incomingCall handles i).op.operands, u < tape.size := by
  rw [incomingCall]
  split
  · exact fun u hu => absurd hu List.not_mem_nil
  · exact fun u hu => hv.of_mem hu

/-- A weight or bias needs its parameter; nothing else can be in the way. -/
theorem recordNode_ok (row : Row α)
    (hp : (ev.graph.node i).kind.isTrainable → (store.lookUp? i).isSome)
    (hv : Valid handles tape) :
    ∃ h tape', ev.recordNode store row handles tape i = .ok (h, tape') := by
  have param (ht : (ev.graph.node i).kind.isTrainable) :
      ∃ p tape₁, ev.readParameter store tape i = .ok (p, tape₁) := by
    obtain ⟨⟨id, x⟩, hx⟩ := Option.isSome_iff_exists.1 (hp ht)
    rw [readParameter_eq, hx]
    exact ⟨_, _, rfl⟩
  have sum {t : Tape α} (ht : Valid handles t) : ∃ s t', ev.sumIncoming handles t i = .ok (s, t') := by
    rw [sumIncoming_eq, Tape.call_ok (incomingCall_valid ht)]
    exact ⟨_, _, rfl⟩
  rw [recordNode]
  cases hk : (ev.graph.node i).kind with
  | input => exact ⟨_, _, rfl⟩
  | bias => exact param (by rw [hk]; rfl)
  | weight =>
    obtain ⟨p, tape₁, hr⟩ := param (by rw [hk]; rfl)
    obtain ⟨_, _, _, hc⟩ := readParameter_inv hr
    by_cases hd : ev.graph.hasDeclaredInputs[i]
    · obtain ⟨s, tape₂, hs⟩ := sum (hv.mono (Tape.call_size_le hc))
      have hc₂ := sumIncoming_inv hs
      have hlt : ∀ u ∈ (Call.mul s p : Call α).op.operands, u < tape₂.size := by
        intro u hu
        simp only [Call.op, Op.operands, List.mem_cons, List.not_mem_nil, or_false] at hu
        rcases hu with rfl | rfl
        · exact Tape.call_lt hc₂
        · exact Nat.lt_of_lt_of_le (Tape.call_lt hc) (Tape.call_size_le hc₂)
      have hm : tape₂.mul s p = .ok _ := Tape.call_ok hlt
      simp only [hr, bind, Except.bind, if_pos hd, hs, hm]
      exact ⟨_, _, rfl⟩
    · simp only [hr, bind, Except.bind, if_neg hd]
      exact ⟨_, _, rfl⟩
  | neuron | activation =>
    obtain ⟨s, tape₁, hs⟩ := sum hv
    have hlt := Tape.call_lt (sumIncoming_inv hs)
    have ha : tape₁.activate (ev.graph.node i).activation s = .ok _ :=
      Tape.call_ok (c := .activate _ _) fun u hu => List.mem_singleton.1 hu ▸ hlt
    simp only [hs, bind, Except.bind, ha]
    exact ⟨_, _, rfl⟩
  | output => exact sum hv

theorem recordNodes_inv {is : List (Fin ev.graph.size)}
    {handles' : Vector (Option Handle) ev.graph.size}
    (hr : ev.recordNodes store row is handles tape = .ok (handles', tape')) :
    tape.Grows store.Backs tape' ∧ (Valid handles tape → Valid handles' tape') ∧
      ∀ {β : Type} [Scalar β] {ℓ : Translation α β} {final : Tape α} {view : Handle → β},
        tape'.IsPrefix final → final.Reads ℓ view →
        handles'.map (·.map view) =
          ev.graph.valuesAfter (ev.envIn ℓ store row) is (handles.map (·.map view)) := by
  induction is generalizing handles tape with
  | nil =>
    obtain ⟨rfl, rfl⟩ := Prod.mk.inj (Except.ok.inj hr)
    exact ⟨.refl, id, fun _ _ => rfl⟩
  | cons i is ih =>
    obtain ⟨⟨h, tape₁⟩, hn, hr⟩ := Except.bind_eq_ok_iff.1 hr
    obtain ⟨hg, hh, hv⟩ := recordNode_inv hn
    obtain ⟨hg', hvalid, hvs⟩ := ih hr
    refine ⟨hg.trans hg', fun hval => hvalid ((hval.mono hg.size_le).place i hh), fun hpre hview => ?_⟩
    rw [hvs hpre hview, Graph.valuesAfter, ← hv (hg'.isPrefix.trans hpre) hview, ← map_place]
    rfl

theorem recordNodes_ok (row : Row α) {is : List (Fin ev.graph.size)}
    (hp : ∀ i ∈ is, (ev.graph.node i).kind.isTrainable → (store.lookUp? i).isSome)
    (hv : Valid handles tape) :
    ∃ r, ev.recordNodes store row is handles tape = .ok r := by
  induction is generalizing handles tape with
  | nil => exact ⟨_, rfl⟩
  | cons i is ih =>
    obtain ⟨hi, his⟩ := List.forall_mem_cons.1 hp
    obtain ⟨h, tape₁, hn⟩ := recordNode_ok row hi hv
    obtain ⟨hg, hh, _⟩ := recordNode_inv hn
    obtain ⟨r, hr⟩ := ih his ((hv.mono hg.size_le).place i hh)
    exact ⟨r, Except.bind_eq_ok_iff.2 ⟨_, hn, hr⟩⟩

theorem isSome_of_recordNode (hr : ev.recordNode store row handles tape i = .ok (h, tape'))
    (hi : (ev.graph.node i).kind.isTrainable) : (store.lookUp? i).isSome := by
  cases recordNode_calls hr with
  | bias _ hx | weight _ _ hx | weighted _ _ hx =>
    rw [hx]
    rfl
  | input hk | output hk =>
    rw [hk] at hi
    cases hi
  | activate hk =>
    rcases hk with hk | hk <;> rw [hk] at hi <;> cases hi

theorem isSome_of_recordNodes {is : List (Fin ev.graph.size)}
    {r : Vector (Option Handle) ev.graph.size × Tape α}
    (hr : ev.recordNodes store row is handles tape = .ok r) :
    ∀ i ∈ is, (ev.graph.node i).kind.isTrainable → (store.lookUp? i).isSome := by
  induction is generalizing handles tape with
  | nil => nofun
  | cons i is ih =>
    obtain ⟨_, hn, hr⟩ := Except.bind_eq_ok_iff.1 hr
    exact List.forall_mem_cons.2 ⟨isSome_of_recordNode hn, ih hr⟩

/-- A recorded row stands for what the interpreter makes of it. -/
theorem record_inv {r : RecordedRow α ev.graph.size} (hr : ev.record store tape row = .ok r) :
    tape.Grows store.Backs r.tape ∧ Valid r.handles r.tape ∧ r.prediction < r.tape.size ∧
      ∀ {β : Type} [Scalar β] {ℓ : Translation α β} {final : Tape α} {view : Handle → β},
        r.tape.IsPrefix final → final.Reads ℓ view →
        r.handles.map (·.map view) = ev.graph.values (ev.envIn ℓ store row) ∧
          view r.prediction = ev.graph.prediction (ev.envIn ℓ store row) := by
  obtain ⟨⟨handles, tape₁⟩, hn, hr⟩ := Except.bind_eq_ok_iff.1 hr
  obtain ⟨hg, hvalid, hvs⟩ := recordNodes_inv hn
  have hv := hvalid (allKnown_replicate _ _)
  have hvalues {β : Type} [Scalar β] {ℓ : Translation α β} {final : Tape α} {view : Handle → β}
      (hpre : tape₁.IsPrefix final) (hview : final.Reads ℓ view) :
      handles.map (·.map view) = ev.graph.values (ev.envIn ℓ store row) := by
    rw [hvs hpre hview, Vector.map_replicate]
    rfl
  have houtput {β : Type} (view : Handle → β) :
      ev.graph.output.bind (handles.map (·.map view)).get =
        (ev.graph.output.bind fun o => handles[o]).map view := by
    cases ev.graph.output with
    | none => rfl
    | some o => exact Vector.get_map ..
  cases ho : ev.graph.output.bind fun o => handles[o] with
  | some u =>
    simp only [ho] at hr
    cases hr
    obtain ⟨o, _, hu⟩ := Option.bind_eq_some_iff.1 ho
    refine ⟨hg, hv, hv o u hu, fun hpre hview => ⟨hvalues hpre hview, ?_⟩⟩
    rw [Graph.prediction, ← hvalues hpre hview, houtput, ho]
    rfl
  | none =>
    have hc : tape₁.call (.constant 0) = .ok (tape₁.constant 0) := rfl
    simp only [ho] at hr
    cases hr
    refine ⟨hg.call hc trivial, hv.mono (Tape.call_size_le hc), Tape.call_lt hc,
      fun hpre hview => ?_⟩
    have hvals := hvalues ((Tape.call_isPrefix hc).trans hpre) hview
    refine ⟨hvals, ?_⟩
    rw [Graph.prediction, ← hvals, houtput, ho]
    exact (hview.call hc hpre).trans (Translation.constant_zero _)

def Readable (ev : Evaluator α) (store : ParameterStore α) : Prop :=
  ∀ i ∈ ev.graph.order, (ev.graph.node i).kind.isTrainable → (store.lookUp? i).isSome

omit [Scalar α] in
theorem readable_of_fits (hs : store.Fits ev.graph) : ev.Readable store :=
  fun _ _ hi => hs.isSome_lookUp? hi

theorem record_ok (row : Row α) (tape : Tape α) (hp : ev.Readable store) :
    ∃ r, ev.record store tape row = .ok r := by
  have hv : Valid (Vector.replicate ev.graph.size none) tape := allKnown_replicate _ _
  obtain ⟨⟨handles, tape₁⟩, hn⟩ := recordNodes_ok row hp hv
  rw [record]
  simp only [hn, bind, Except.bind]
  split <;> exact ⟨_, rfl⟩

theorem readable_of_record {r : RecordedRow α ev.graph.size}
    (hr : ev.record store tape row = .ok r) : ev.Readable store := by
  obtain ⟨_, hn, _⟩ := Except.bind_eq_ok_iff.1 hr
  exact isSome_of_recordNodes hn

theorem evaluate_eq (row : Row α) (hp : ev.Readable store) :
    ev.evaluate store row = .ok {
      values := ev.graph.values (ev.envIn (.refl α) store row)
      prediction := ev.graph.prediction (ev.envIn (.refl α) store row) } := by
  obtain ⟨r, hr⟩ := record_ok row .empty hp
  obtain ⟨hg, hv, hlt, hread⟩ := record_inv hr
  obtain ⟨hvalues, hprediction⟩ :=
    hread (fun _ _ he => he) hg.recorded.reads_valueAt
  have hknown : r.handles.map (·.bind r.tape.value?) = r.handles.map (·.map r.tape.valueAt) := by
    apply Vector.ext
    intro j hj
    rw [Vector.getElem_map, Vector.getElem_map]
    cases hu : r.handles[j] with
    | none => rfl
    | some u =>
      obtain ⟨e, he⟩ := Tape.exists_entry (hv ⟨j, hj⟩ u hu)
      simp only [Option.bind_some, Option.map_some, Tape.valueAt, Tape.value?, he,
        Option.getD_some]
  rw [evaluate]
  simp only [hr, bind, Except.bind, Tape.value_eq hlt, hknown, hvalues, hprediction]
  rfl

theorem readInput_new (g : Graph α) (labels : List String) (row : Row α) (i : Fin g.size) :
    (Evaluator.new g labels).readInput row i = row.look labels (g.node i).label := by
  have hc : (Evaluator.new g labels).columns[i] = column? labels (g.node i).label :=
    Vector.getElem_map _ _
  exact congrArg (fun column : Option Nat => (column.bind fun c => row.inputs[c]?).getD 0) hc

theorem envIn_new (g : Graph α) (labels : List String) (store : ParameterStore α) (row : Row α) :
    (Evaluator.new g labels).envIn (.refl α) store row = g.env labels store row :=
  congrArg₂ Env.mk (funext (readInput_new g labels row)) rfl

theorem evaluate_new {g : Graph α} (hs : store.Fits g) (labels : List String) (row : Row α) :
    (Evaluator.new g labels).evaluate store row = .ok {
      values := g.values (g.env labels store row)
      prediction := g.prediction (g.env labels store row) } := by
  rw [← envIn_new]
  exact evaluate_eq row (readable_of_fits hs)

end Evaluator

end Backprop
