import SnippetTutor.StableSort
import SnippetTutor.Trace.Transcript

/-! # Comparison of the scope policies

The same snippet is run under both policies, step by step, and the consoles and final
variables are shown.
-/
namespace SnippetTutor.ScopeComparison

def source : Text :=
  "score = 0
bonus = 10

def add_bonus(points):
    score = points
    note = 'added'
    print('score is ' + score)

add_bonus(5)
print(score)
".toList

def rule : Text := List.replicate 60 '='

def config (policy : ScopePolicy) : Config := { scope := policy, verbose := true }

def part (policy : ScopePolicy) : Except Fault Text := do
  let t ← Trace.ofSource (config policy) source
  let rows := stableSortOn Prod.fst (fun a b => decide (a < b)) t.memory.shown
  .ok (Text.unlines [rule, "MODE: ".toList ++ policy.label, rule] ++
    (config policy).transcript t.records ++
    Text.unlines (["Console:".toList] ++ t.output.map ("    > ".toList ++ ·) ++
      [[], "Final variables:".toList] ++
      rows.map (fun row => "    ".toList ++ row.1 ++ " = ".toList ++ row.2) ++ [[]]))

def text : Except Fault Text := do
  .ok (Text.unlines ["SOURCE:".toList, source] ++ (← part .isolated) ++
    (← part .writeBack))

end SnippetTutor.ScopeComparison
