import EffectLang.Files.Tree

/-!
Plans: changes to a file tree that are decided on beforehand and then made in order. A change that fails ends
the plan; what was changed before it stays.
-/
namespace EffectLang

inductive FileAction where
  | makeDirectories (path : String)
  | write (path : String) (content : List UInt8)
deriving DecidableEq, Repr

def FileAction.path : FileAction → String
  | .makeDirectories path => path
  | .write path _ => path

def FileTree.apply (tree : FileTree) : FileAction → Except StreamFault Unit × FileTree
  | .makeDirectories path => tree.makeDirectories path
  | .write path content =>
    match tree.writeFile path content with
    | .error fault => (.error fault, tree)
    | .ok written => (.ok (), written)

/-- A step of a plan: a change, with the error that its failure is, or an error at this point. -/
inductive Step (ε : Type) where
  | act (action : FileAction) (blame : StreamFault → ε)
  | stop (error : ε)

def Step.mapError {ε δ : Type} (f : ε → δ) : Step ε → Step δ
  | .act action blame => .act action (f ∘ blame)
  | .stop error => .stop (f error)

def FileTree.perform {ε : Type} (tree : FileTree) : List (Step ε) → Except ε Unit × FileTree
  | [] => (.ok (), tree)
  | .stop error :: _ => (.error error, tree)
  | .act action blame :: steps =>
    match tree.apply action with
    | (.error fault, tree) => (.error (blame fault), tree)
    | (.ok _, tree) => tree.perform steps

def Step.open (action : FileAction) : Step Error :=
  .act action (.cannotOpen action.path)

end EffectLang
