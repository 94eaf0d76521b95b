import Labyrinth.Language.Dialect
import Labyrinth.Text.Lines

/-!
# Templates

Programs that find the exit, each of them written in both dialects. The two spellings of a
template look at the cells around the cursor in the same order, so they take the same way.

## Main results

* `Template.ofName?_name`: a template is found by its name.
-/

namespace Labyrinth

/-- A program that comes with the library. -/
inductive Template
  /-- Looks for a shortest way by breadth-first search, then walks it. -/
  | breadthFirst
  /-- Walks along the wall on the right. -/
  | wallFollower
  deriving DecidableEq, Repr

namespace Template

/-- Every template. -/
def all : List Template := [breadthFirst, wallFollower]

/-- The name by which users choose a template. -/
def name : Template → String
  | breadthFirst => "bfs"
  | wallFollower => "wall-follower"

/-- The template with a given name. -/
def ofName? (s : String) : Option Template := all.find? fun t => t.name == s

theorem ofName?_name (t : Template) : ofName? t.name = some t := by
  cases t <;> decide

/-- Breadth-first search in the indented dialect. -/
def breadthFirstIndented : List String := [
  "# Breadth-first search over open cells, then replay the shortest route.",
  "def neighbours(x, y):",
  "    found = []",
  "    for dx, dy, name in [(0, -1, \"up\"), (0, 1, \"down\"), " ++
    "(-1, 0, \"left\"), (1, 0, \"right\")]:",
  "        nx = x + dx",
  "        ny = y + dy",
  "        if not is_wall(nx, ny):",
  "            found.append([nx, ny, name])",
  "    return found",
  "",
  "def find_route():",
  "    pos = get_position()",
  "    start = (pos[\"x\"], pos[\"y\"])",
  "    queue = [start]",
  "    came_from = \x7bstart: None\x7d",
  "    while len(queue) > 0:",
  "        current = queue.pop(0)",
  "        if is_end(current[0], current[1]):",
  "            return walk_back(came_from, current)",
  "        for nx, ny, name in neighbours(current[0], current[1]):",
  "            step = (nx, ny)",
  "            if step not in came_from:",
  "                came_from[step] = [current, name]",
  "                queue.append(step)",
  "    return []",
  "",
  "def walk_back(came_from, cell):",
  "    route = []",
  "    while came_from[cell] is not None:",
  "        link = came_from[cell]",
  "        route.insert(0, link[1])",
  "        cell = link[0]",
  "    return route",
  "",
  "def follow(route):",
  "    for name in route:",
  "        if name == \"up\":",
  "            move_up()",
  "        elif name == \"down\":",
  "            move_down()",
  "        elif name == \"left\":",
  "            move_left()",
  "        else:",
  "            move_right()",
  "",
  "follow(find_route())"]

/-- Breadth-first search in the braced dialect. -/
def breadthFirstBraced : List String := [
  "// Breadth-first search over open cells, then replay the shortest route.",
  "function neighbours(x, y) \x7b",
  "  const found = [];",
  "  for (const [dx, dy, name] of [[0, -1, \"up\"], [0, 1, \"down\"], " ++
    "[-1, 0, \"left\"], [1, 0, \"right\"]]) \x7b",
  "    const nx = x + dx;",
  "    const ny = y + dy;",
  "    if (!isWall(nx, ny)) \x7b",
  "      found.push([nx, ny, name]);",
  "    \x7d",
  "  \x7d",
  "  return found;",
  "\x7d",
  "",
  "function findRoute() \x7b",
  "  const pos = getPosition();",
  "  const start = [pos.x, pos.y];",
  "  const queue = [start];",
  "  const cameFrom = new Map([[start, null]]);",
  "  while (queue.length > 0) \x7b",
  "    const current = queue.shift();",
  "    if (isEnd(current[0], current[1])) \x7b",
  "      return walkBack(cameFrom, current);",
  "    \x7d",
  "    for (const [nx, ny, name] of neighbours(current[0], current[1])) \x7b",
  "      const step = [nx, ny];",
  "      if (!cameFrom.has(step)) \x7b",
  "        cameFrom.set(step, [current, name]);",
  "        queue.push(step);",
  "      \x7d",
  "    \x7d",
  "  \x7d",
  "  return [];",
  "\x7d",
  "",
  "function walkBack(cameFrom, cell) \x7b",
  "  const route = [];",
  "  while (cameFrom.get(cell) !== null) \x7b",
  "    const link = cameFrom.get(cell);",
  "    route.unshift(link[1]);",
  "    cell = link[0];",
  "  \x7d",
  "  return route;",
  "\x7d",
  "",
  "function follow(route) \x7b",
  "  for (const name of route) \x7b",
  "    if (name === \"up\") \x7b",
  "      await moveUp();",
  "    \x7d else if (name === \"down\") \x7b",
  "      await moveDown();",
  "    \x7d else if (name === \"left\") \x7b",
  "      await moveLeft();",
  "    \x7d else \x7b",
  "      await moveRight();",
  "    \x7d",
  "  \x7d",
  "\x7d",
  "",
  "follow(findRoute());"]

/-- The wall follower in the indented dialect. -/
def wallFollowerIndented : List String := [
  "# Right-hand wall follower: keep a wall on the right until the exit.",
  "HEADINGS = [(0, -1), (1, 0), (0, 1), (-1, 0)]",
  "",
  "def step(heading):",
  "    if heading == 0:",
  "        move_up()",
  "    elif heading == 1:",
  "        move_right()",
  "    elif heading == 2:",
  "        move_down()",
  "    else:",
  "        move_left()",
  "",
  "def open_towards(x, y, heading):",
  "    offset = HEADINGS[heading]",
  "    return not is_wall(x + offset[0], y + offset[1])",
  "",
  "heading = 1",
  "pos = get_position()",
  "while not is_end(pos[\"x\"], pos[\"y\"]):",
  "    for turn in [1, 0, 3, 2]:",
  "        candidate = (heading + turn) % 4",
  "        if open_towards(pos[\"x\"], pos[\"y\"], candidate):",
  "            heading = candidate",
  "            step(heading)",
  "            break",
  "    pos = get_position()"]

/-- The wall follower in the braced dialect. -/
def wallFollowerBraced : List String := [
  "// Right-hand wall follower: keep a wall on the right until the exit.",
  "const HEADINGS = [[0, -1], [1, 0], [0, 1], [-1, 0]];",
  "",
  "function step(heading) \x7b",
  "  if (heading === 0) \x7b",
  "    await moveUp();",
  "  \x7d else if (heading === 1) \x7b",
  "    await moveRight();",
  "  \x7d else if (heading === 2) \x7b",
  "    await moveDown();",
  "  \x7d else \x7b",
  "    await moveLeft();",
  "  \x7d",
  "\x7d",
  "",
  "function openTowards(x, y, heading) \x7b",
  "  const offset = HEADINGS[heading];",
  "  return !isWall(x + offset[0], y + offset[1]);",
  "\x7d",
  "",
  "let heading = 1;",
  "let pos = getPosition();",
  "while (!isEnd(pos.x, pos.y)) \x7b",
  "  for (const turn of [1, 0, 3, 2]) \x7b",
  "    const candidate = (heading + turn) % 4;",
  "    if (openTowards(pos.x, pos.y, candidate)) \x7b",
  "      heading = candidate;",
  "      step(heading);",
  "      break;",
  "    \x7d",
  "  \x7d",
  "  pos = getPosition();",
  "\x7d"]

/-- The lines of a template in a dialect. -/
def lines : Template → Dialect → List String
  | breadthFirst, .indented => breadthFirstIndented
  | breadthFirst, .braced => breadthFirstBraced
  | wallFollower, .indented => wallFollowerIndented
  | wallFollower, .braced => wallFollowerBraced

/-- A template as a program in a dialect. -/
def program (t : Template) (d : Dialect) : Program := ⟨d, Text.unlines (t.lines d)⟩

end Template

end Labyrinth
