import TraitWeaver.Round

/-!
# The same round with another filer

A round knows nothing of its filer but the answers. So whatever two filers have in
common at each single file, they have in common after the whole round. What that is
stays open here: it is any relation between what is done with the one and what is
done with the other, as long as it holds of doing nothing and of doing one thing
after another (`Correspondence`).

There is one lemma for each function that is given a filer, in the order in which
they call each other, up to `process`.

The answers are forgotten when a round is over. What is to be said of them is said of
a filer that takes down which files it has finished (`Filer.noting`), beside a state
that knows nothing of it. That this is the same round is a first use of `process`.
-/

namespace TraitWeaver

/-- What is done in two monads corresponds. -/
structure Correspondence (m n : Type → Type) [Monad m] [Monad n] where
  Holds : ∀ {α : Type}, m α → n α → Prop
  /-- Nothing is done, with the same result. -/
  pure : ∀ {α : Type} (a : α), Holds (pure a) (pure a)
  /-- What corresponds has one result, and what follows on each result corresponds. -/
  bind : ∀ {α β : Type} {x : m α} {y : n α} {f : α → m β} {g : α → n β},
    Holds x y → (∀ a, Holds (f a) (g a)) → Holds (x >>= f) (y >>= g)

namespace Correspondence

variable {m n : Type → Type} [Monad m] [Monad n] (c : Correspondence m n)
  {filer : Filer m} {filer' : Filer n}

theorem foldlM {α β : Type} {f : β → α → m β} {g : β → α → n β}
    (h : ∀ b a, c.Holds (f b a) (g b a)) (xs : List α) (b : β) :
    c.Holds (xs.foldlM f b) (xs.foldlM g b) := by
  induction xs generalizing b with
  | nil => exact c.pure b
  | cons x xs ih =>
      rw [List.foldlM_cons, List.foldlM_cons]
      exact c.bind (h b x) ih

variable (h : ∀ file, c.Holds (filer.create file) (filer'.create file))

include h

theorem createAll (files : List SourceFile) :
    c.Holds (Generator.createAll filer files) (Generator.createAll filer' files) := by
  induction files with
  | nil => exact c.pure _
  | cons file rest ih =>
      refine c.bind (h file) fun answer => ?_
      cases answer with
      | ok => exact ih
      | error fault => exact c.pure _

theorem generateTrait (g : Generator) (t : Trait) :
    c.Holds (g.generateTrait filer t) (g.generateTrait filer' t) := by
  unfold Generator.generateTrait
  dsimp only
  split
  · exact c.pure _
  · split
    · exact c.pure _
    · refine c.bind (c.createAll h _) fun answer => ?_
      cases answer with
      | ok => exact c.pure _
      | error e => exact c.pure _

theorem generateHost (g : Generator) (host : Host) :
    c.Holds (g.generateHost filer host) (g.generateHost filer' host) := by
  unfold Generator.generateHost
  dsimp only
  split
  · exact c.pure _
  · split
    · exact c.pure _
    · refine c.bind (c.createAll h _) fun answer => ?_
      cases answer with
      | ok => exact c.pure _
      | error e => exact c.pure _

theorem traitStep (p : Declarations.Progress) (t : Trait) :
    c.Holds (Declarations.generateTrait filer p t) (Declarations.generateTrait filer' p t) := by
  refine c.bind (c.generateTrait h p.generator t) fun answer => ?_
  cases answer with
  | ok => exact c.pure _
  | error e => exact c.pure _

theorem hostStep (index : TraitIndex) (p : Declarations.Progress) (d : HostDecl) :
    c.Holds (Declarations.generateHost filer index p d)
      (Declarations.generateHost filer' index p d) := by
  unfold Declarations.generateHost
  dsimp only
  split
  · exact c.pure _
  · split
    · exact c.pure _
    · refine c.bind (c.generateHost h p.generator _) fun answer => ?_
      cases answer with
      | ok => exact c.pure _
      | error e => exact c.pure _

/-- **What holds of two filers at each file holds of them after a round.** -/
theorem process (d : Declarations) (config : Config) :
    c.Holds (d.process config filer) (d.process config filer') := by
  refine c.bind (c.foldlM (c.traitStep h) _ _) fun p => ?_
  exact c.bind (c.foldlM (c.hostStep h _) _ _) fun p => c.pure p.result

end Correspondence

/-! ## Finished files -/

/-- The filer that also takes down the names of the files that are finished, the last one first. -/
def Filer.noting {m : Type → Type} [Monad m] (filer : Filer m) :
    Filer (StateT (List String) m) where
  create file := do
    let answer ← (filer.create file : m (Except FileFault Unit))
    modify fun finished => if answer.isOk then file.name :: finished else finished
    return answer

section

variable {m : Type → Type} [Monad m] [LawfulMonad m]

/-- The same is done, with a state beside it that has no part in it. -/
def erasing (σ : Type) (m : Type → Type) [Monad m] [LawfulMonad m] :
    Correspondence m (StateT σ m) where
  Holds x y := ∀ s, Prod.fst <$> y.run s = x
  pure _ _ := map_pure _ _
  bind := by
    intro α β x y f g hxy hfg s
    calc Prod.fst <$> (y >>= g).run s
        = y.run s >>= fun p => Prod.fst <$> (g p.1).run p.2 := by
          rw [StateT.run_bind, map_bind]
      _ = y.run s >>= fun p => f p.1 := bind_congr fun p => hfg p.1 p.2
      _ = Prod.fst <$> y.run s >>= f := (bind_map_left _ _ _).symm
      _ = x >>= f := by rw [hxy]

theorem Filer.run_noting_create (filer : Filer m) (file : SourceFile) (finished : List String) :
    (filer.noting.create file).run finished =
      (fun answer => (answer, if answer.isOk then file.name :: finished else finished)) <$>
        filer.create file := by
  unfold noting
  dsimp only
  rw [StateT.run_bind, StateT.run_monadLift, bind_assoc, ← bind_pure_comp]
  refine bind_congr fun answer => ?_
  rw [pure_bind, StateT.run_bind, StateT.run_modify, pure_bind]
  rfl

theorem erasing_noting (filer : Filer m) (file : SourceFile) :
    (erasing (List String) m).Holds (filer.create file) (filer.noting.create file) := by
  intro finished
  rw [Filer.run_noting_create, Functor.map_map]
  exact id_map _

/-- **A round is the same when its files are taken down.** -/
theorem Declarations.process_noting (d : Declarations) (config : Config) (filer : Filer m)
    (finished : List String) :
    Prod.fst <$> (d.process config filer.noting).run finished = d.process config filer :=
  (erasing (List String) m).process (erasing_noting filer) d config finished

end

end TraitWeaver
