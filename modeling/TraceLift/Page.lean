/-
# The page of a graph

A drawing of a graph becomes a page on which blocks can be clicked.  The first three lines of the
drawing are its preamble and are left out.  If the functions of the graph are known, the page has
a list of them, each of which can be highlighted.
-/
import TraceLift.Graph.Text
import TraceLift.Text.Lines
import TraceLift.Text.Quoted

namespace TraceLift.Page

/-- What stands before the drawing. -/
def opening : List String :=
   ["",
    "              <html>",
    "              <body>",
    "              <style>",
    "              .node",
    "              \x7b",
    "                transition: all 0.05s ease-out;",
    "              \x7d",
    "              .node:hover",
    "              \x7b",
    "                stroke-width: 1.5;",
    "                cursor:pointer",
    "              \x7d",
    "              .node:hover",
    "              ellipse",
    "              \x7b",
    "                fill: #EEE;",
    "              \x7d",
    "              textarea#infobox \x7b",
    "                position: fixed;",
    "                display: block;",
    "                top: 0;",
    "                right: 0;",
    "              \x7d",
    "",
    "              .dropbutton \x7b",
    "                padding: 10px;",
    "                border: none;",
    "              \x7d",
    "              .dropbutton:hover, .dropbutton:focus \x7b",
    "                background-color: #777777;",
    "              \x7d",
    "              .dropdown \x7b",
    "                margin-right: 5px;",
    "                position: fixed;",
    "                top: 5px;",
    "                right: 0px;",
    "              \x7d",
    "              .dropdown-content \x7b",
    "                background-color: white;",
    "                display: none;",
    "                position: absolute;",
    "                width: 70px;",
    "                box-shadow: 0px 5px 10px 0px rgba(0,0,0,0.2);",
    "                z-index: 1;",
    "              \x7d",
    "              .dropdown-content a \x7b",
    "                color: black;",
    "                padding: 8px 10px;",
    "                text-decoration: none;",
    "                font-size: 10px;",
    "                display: block;",
    "              \x7d",
    "",
    "              .dropdown-content a:hover \x7b background-color: #f1f1f1; \x7d",
    "",
    "              .show \x7b display:block; \x7d",
    "              </style>",
    "              "]

/-- The field that shows the block clicked last. -/
def infoBox : String :=
  "<textarea id=\"infobox\" disabled=true rows=40 cols=80></textarea>"

/-- What stands before the list of functions. -/
def listOpening : List String :=
   ["<div class=\"dropdown\">",
    "               <button onclick=\"showDropdown()\" class=\"dropbutton\">Functions</button>",
    "               <div id=\"func-list\" class=\"dropdown-content\">"]

/-- The behaviour of the page, and its end. -/
def closing : List String :=
   ["",
    "               // Set info textbox contents to the title of the given element, with line endings replaced suitably.",
    "               function setInfoContents(element)\x7b",
    "                   document.getElementById('infobox').value = element.getAttribute('xlink:title').replace(/\\\\n/g, '\\n');",
    "               \x7d",
    "",
    "               // Make all node anchor tags in the svg clickable.",
    "               for (var el of Array.from(document.querySelectorAll(\".node a\"))) \x7b",
    "                   el.setAttribute(\"onclick\", \"setInfoContents(this);\");",
    "               \x7d",
    "",
    "               const svg = document.querySelector('svg')",
    "               const NS = \"http://www.w3.org/2000/svg\";",
    "               const defs = document.createElementNS( NS, \"defs\" );",
    "",
    "               // IIFE add filter to svg to allow shadows to be added to nodes within it",
    "               (function()\x7b",
    "                 defs.innerHTML = makeShadowFilter()",
    "                 svg.insertBefore(defs,svg.children[0])",
    "               \x7d)()",
    "",
    "               function colorToID(color)\x7b",
    "                 return color.replace(/[^a-zA-Z0-9]/g,'_')",
    "               \x7d",
    "",
    "               function makeShadowFilter(\x7bcolor = 'black',x = 0,y = 0, blur = 3\x7d = \x7b\x7d)\x7b",
    "                 return `",
    "                 <filter id=\"filter_$\x7bcolorToID(color)\x7d\" x=\"-40%\" y=\"-40%\" width=\"250%\" height=\"250%\">",
    "                   <feGaussianBlur in=\"SourceAlpha\" stdDeviation=\"$\x7bblur\x7d\"/>",
    "                   <feOffset dx=\"$\x7bx\x7d\" dy=\"$\x7by\x7d\" result=\"offsetblur\"/>",
    "                   <feFlood flood-color=\"$\x7bcolor\x7d\"/>",
    "                   <feComposite in2=\"offsetblur\" operator=\"in\"/>",
    "                   <feMerge>",
    "                     <feMergeNode/>",
    "                     <feMergeNode in=\"SourceGraphic\"/>",
    "                   </feMerge>",
    "                 </filter>",
    "                 `",
    "               \x7d",
    "",
    "               // Shadow toggle functions, with filter caching",
    "               function addShadow(el, \x7bcolor = 'black', x = 0, y = 0, blur = 3\x7d)\x7b",
    "                 const id = colorToID(color);",
    "                 if(!defs.querySelector(`#filter_$\x7bid\x7d`))\x7b",
    "                   const d = document.createElementNS(NS, 'div');",
    "                   d.innerHTML = makeShadowFilter(\x7bcolor, x, y, blur\x7d);",
    "                   defs.appendChild(d.children[0]);",
    "                 \x7d",
    "                 el.style.filter = `url(#filter_$\x7bid\x7d)`",
    "               \x7d",
    "",
    "               function removeShadow(el)\x7b",
    "                 el.style.filter = ''",
    "               \x7d",
    "",
    "               function hash(n) \x7b",
    "                 var str = n + \"rainbows\" + n + \"please\" + n;",
    "                 var hash = 0;",
    "                 for (var i = 0; i < str.length; i++) \x7b",
    "                   hash = (((hash << 5) - hash) + str.charCodeAt(i)) | 0;",
    "                 \x7d",
    "                 return hash > 0 ? hash : -hash;",
    "               \x7d;",
    "",
    "               function getColor(n, sat=\"80%\", light=\"50%\") \x7b",
    "                 const hue = hash(n) % 360;",
    "                 return `hsl($\x7bhue\x7d, $\x7bsat\x7d, $\x7blight\x7d)`;",
    "               \x7d",
    "",
    "               // Add shadows to function body nodes, and highlight functions in the dropdown list",
    "               function highlightFunction(i) \x7b",
    "                 for (var n of Array.from(document.querySelectorAll(\".node ellipse\"))) \x7b",
    "                   removeShadow(n);",
    "                 \x7d",
    "",
    "                 highlight[i] = !highlight[i];",
    "                 const entry = document.querySelector(`.dropdown-content a[id='f_$\x7bi\x7d']`)",
    "                 if (entry.style.backgroundColor) \x7b",
    "                   entry.style.backgroundColor = null;",
    "                 \x7d else \x7b",
    "                   entry.style.backgroundColor = getColor(i, \"60%\", \"90%\");",
    "                 \x7d",
    "",
    "                 for (var j = 0; j < highlight.length; j++) \x7b",
    "                   if (highlight[j]) \x7b",
    "                     const col = getColor(j);",
    "                     for (var id of func_map[j]) \x7b",
    "                       var n = document.querySelector(`.node[id='$\x7bid\x7d'] ellipse`);",
    "                       addShadow(n, \x7bcolor:`$\x7bcol\x7d`\x7d);",
    "                     \x7d",
    "                   \x7d",
    "                 \x7d",
    "               \x7d",
    "",
    "               // Show the dropdown elements when it's clicked.",
    "               function showDropdown() \x7b",
    "                 document.getElementById(\"func-list\").classList.toggle(\"show\");",
    "               \x7d",
    "               window.onclick = function(event) \x7b",
    "                 if (!event.target.matches('.dropbutton')) \x7b",
    "                   var items = Array.from(document.getElementsByClassName(\"dropdown-content\"));",
    "                   for (var item of items) \x7b",
    "                     item.classList.remove('show');",
    "                   \x7d",
    "                 \x7d",
    "               \x7d",
    "              </script>",
    "              </html>",
    "              </body>",
    "              "]

/-- The entry of a function in the list. -/
def listEntry (i : Nat) (f : Function) : String :=
  let number := toString i
  let link := "<a id=f_" ++ number ++ " href=\"javascript:highlightFunction(" ++ number ++ ")\">"
  let title :=
    if f.isPrivate then "private #" ++ number
    else if f.signature = "" then "fallback"
    else "public " ++ f.signature
  link ++ title ++ "</a>"

/-- The identifiers of the blocks of each function. -/
def functionMap (g : Graph) (x : Extraction) : Except Fault String := do
  let bodies ← x.functions.mapM fun f => f.body.mapM g.ident
  let entries := bodies.mapIdx fun i idents =>
    toString i ++ ": [" ++ String.intercalate ", " (idents.map Text.quoted) ++ "]"
  return "\x7b" ++ String.intercalate ", " entries ++ "\x7d"

/-- The list of functions. -/
def functionList (x : Extraction) : List String :=
  listOpening ++ x.functions.mapIdx listEntry ++ ["</div></div>"]

/-- What the script knows of the functions. -/
def functionData (g : Graph) (x : Extraction) : Except Fault (List String) := do
  return ["var func_map = " ++ (← functionMap g x) ++ ";",
    "var highlight = new Array(" ++ toString x.functions.length ++ ").fill(0);"]

/-- The page of a drawing, with the functions of a graph if they are given. -/
def ofDrawing (drawing : String) (functions : Option (Graph × Extraction)) :
    Except Fault String := do
  let (list, data) ← match functions with
    | some (g, x) => do pure (functionList x, ← functionData g x)
    | none => pure ([], [])
  return String.intercalate "\n"
    (opening ++ (Text.split '\n' drawing).drop 3 ++ [infoBox] ++ list ++ ["<script>"] ++ data ++
      closing)

end TraceLift.Page
