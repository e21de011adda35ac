import Lookahead.Grammar.Draft
import Lookahead.Machine.Settings

/-! The grammar of the small imperative language: declarations, assignments, increments and loops in a `main`. -/

namespace Lookahead
namespace Imperative

def outline : Outline where
  terminals := [";", ",", "(", ")", "\x7b", "\x7d", "int", "float", "main", "=", "while", "<", ">",
    "++", "--", "+", "-", "*", "/", "ID", "CONST"]
  nonterminals := ["program", "stmts", "stmt", "decl", "type", "id_list", "id_tail", "init_opt", "while_stmt",
    "expr_stmt", "expr_stmt_tail", "expr", "expr_tail", "term", "term_tail", "factor", "unary_op", "cond", "rel_op",
    "add_op", "mul_op"]
  start := some "program"
  productions := [
    ("program", ["int", "main", "(", ")", "\x7b", "stmts", "\x7d"]),
    ("stmts", ["stmt", "stmts"]),
    ("stmts", ["ε"]),
    ("stmt", ["decl"]),
    ("stmt", ["expr_stmt"]),
    ("stmt", ["while_stmt"]),
    ("decl", ["type", "id_list", ";"]),
    ("type", ["int"]),
    ("type", ["float"]),
    ("id_list", ["ID", "init_opt", "id_tail"]),
    ("id_tail", [",", "ID", "init_opt", "id_tail"]),
    ("id_tail", ["ε"]),
    ("init_opt", ["=", "expr"]),
    ("init_opt", ["ε"]),
    ("expr_stmt", ["ID", "expr_stmt_tail"]),
    ("expr_stmt", ["unary_op", "ID", ";"]),
    ("expr_stmt_tail", ["=", "expr", ";"]),
    ("expr_stmt_tail", ["++", ";"]),
    ("expr_stmt_tail", ["--", ";"]),
    ("while_stmt", ["while", "(", "cond", ")", "\x7b", "stmts", "\x7d"]),
    ("cond", ["expr", "rel_op", "expr"]),
    ("rel_op", ["<"]),
    ("rel_op", [">"]),
    ("expr", ["term", "expr_tail"]),
    ("expr_tail", ["add_op", "term", "expr_tail"]),
    ("expr_tail", ["ε"]),
    ("term", ["factor", "term_tail"]),
    ("term_tail", ["mul_op", "factor", "term_tail"]),
    ("term_tail", ["ε"]),
    ("factor", ["ID"]),
    ("factor", ["CONST"]),
    ("factor", ["(", "expr", ")"]),
    ("unary_op", ["++"]),
    ("unary_op", ["--"]),
    ("add_op", ["+"]),
    ("add_op", ["-"]),
    ("mul_op", ["*"]),
    ("mul_op", ["/"])]
  restarts := ["stmts", "stmt", "decl", "expr_stmt"]

def grammar : Except Defect Grammar := outline.build

/-- The head `int main ( ) {` starts with a type keyword, so its brace ends a declaration too. -/
def settings : Settings := { declarationEnds := [";", "\x7b"] }

end Imperative
end Lookahead
